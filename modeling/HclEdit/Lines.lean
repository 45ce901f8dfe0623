import HclEdit.Span
import HclEdit.Text.Basic

/-!
The lines of a text. Every line feed ends a line, together with a carriage return right before it;
what follows the last line feed is a line too, also when it is empty.
-/

namespace HclEdit

inductive LineEnding where
  | none
  | newline
  | carriageReturnNewline
deriving DecidableEq, Repr

def LineEnding.text : LineEnding → Text
  | .none => []
  | .newline => ['\n']
  | .carriageReturnNewline => ['\r', '\n']

structure Line where
  start : Nat
  content : Text
  ending : LineEnding
deriving DecidableEq

namespace Line

def stop (line : Line) : Nat :=
  line.start + Text.byteLength line.content

def span (line : Line) : Span :=
  ⟨line.start, line.stop⟩

def text (line : Line) : Text :=
  line.content ++ line.ending.text

/-- The line made of what stands before a line feed. -/
def terminated (start : Nat) (piece : Text) : Line :=
  if piece.getLast? = some '\r' then
    ⟨start, piece.dropLast, .carriageReturnNewline⟩
  else
    ⟨start, piece, .newline⟩

theorem text_terminated (start : Nat) (piece : Text) :
    (terminated start piece).text = piece ++ ['\n'] := by
  by_cases h : piece.getLast? = some '\r'
  · obtain ⟨front, rfl⟩ := List.getLast?_eq_some_iff.1 h
    simp [terminated, text, LineEnding.text]
  · simp [terminated, text, LineEnding.text, h]

end Line

structure Point where
  row : Nat
  column : Nat
deriving DecidableEq

structure LineTable where
  lines : List Line
deriving DecidableEq

namespace LineTable

/-- Lays out the pieces between line feeds one after the other. -/
def layOut (start : Nat) : List Text → List Line
  | [] => []
  | [last] => [⟨start, last, .none⟩]
  | piece :: others => .terminated start piece :: layOut (start + Text.byteLength piece + 1) others

theorem length_layOut (start : Nat) (pieces : List Text) :
    (layOut start pieces).length = pieces.length := by
  fun_induction layOut start pieces <;> simp_all

theorem flatMap_text_layOut (start : Nat) (pieces : List Text) :
    (layOut start pieces).flatMap Line.text = Text.join ['\n'] pieces := by
  fun_induction layOut start pieces with
  | case1 => rfl
  | case2 => simp [Line.text, LineEnding.text, Text.join]
  | case3 start piece others hothers ih =>
    simp [Line.text_terminated, Text.join_cons hothers, ih]

def ofText (text : Text) : LineTable :=
  ⟨layOut 0 (text.pieces (· == '\n'))⟩

/-- The lines with their endings make up the whole text. -/
theorem flatMap_text_ofText (text : Text) : (ofText text).lines.flatMap Line.text = text := by
  simp [ofText, flatMap_text_layOut, Text.join_pieces]

def count (table : LineTable) : Nat :=
  table.lines.length

theorem count_ofText_pos (text : Text) : 0 < (ofText text).count := by
  simp [count, ofText, length_layOut, List.length_pos_iff, Text.pieces_ne_nil]

def line? (table : LineTable) (number : Nat) : Option Line :=
  table.lines[number]?

def span? (table : LineTable) (number : Nat) : Option Span :=
  (table.line? number).map Line.span

def content (table : LineTable) (number : Nat) : Text :=
  (table.line? number).elim [] Line.content

def start (table : LineTable) (number : Nat) : Nat :=
  (table.line? number).elim 0 Line.start

/-- The span of a line numbered from one. Zero stands for the first line, and a number past the
end for the last. -/
def clampedSpan (table : LineTable) (oneBased : Nat) : Span :=
  (table.span? (min (oneBased - 1) (table.count - 1))).getD ⟨0, 0⟩

/-- The last line that starts at or before an offset. -/
def rowOf (table : LineTable) (offset : Nat) : Nat :=
  (table.lines.takeWhile (·.start ≤ offset)).length - 1

def pointOf (table : LineTable) (offset : Nat) : Point :=
  let row := table.rowOf offset
  ⟨row, offset - table.start row⟩

end LineTable

/-- The contents of the lines of a text, without an empty one after the last line feed. -/
def Text.lines (text : Text) : List Text :=
  let contents := (LineTable.ofText text).lines.map Line.content
  if contents.getLast? = some [] then contents.dropLast else contents

end HclEdit
