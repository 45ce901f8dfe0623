import HclEdit.Proofs.Lines.Shape
import HclEdit.Proofs.Text.Bytes
import Mathlib.Data.List.Chain

/-!
# The lines of a text are a partition of it

A line starts where the texts of the lines before it end. From this it follows what a span of a line
cuts out of the text, what stands between two spans, and that nothing of the text is lost.
-/

namespace HclEdit

namespace Text

theorem slice?_of_eq_append {text front middle back : Text}
    (htext : text = front ++ (middle ++ back)) {start stop : Nat}
    (hstart : byteLength front = start) (hstop : start + byteLength middle = stop) :
    text.slice? start stop = some middle := by
  subst hstart hstop
  have hcut : text.cut? (byteLength front) = some (front, middle ++ back) :=
    cut?_eq_some_iff.2 ⟨htext, rfl⟩
  have hcut' : (middle ++ back).cut? (byteLength middle) = some (middle, back) :=
    cut?_eq_some_iff.2 ⟨rfl, rfl⟩
  simp [slice?, hcut, hcut']

theorem slice?_eq_some_iff {text middle : Text} {start stop : Nat} :
    text.slice? start stop = some middle ↔ ∃ front back, text = front ++ (middle ++ back) ∧
      byteLength front = start ∧ start + byteLength middle = stop := by
  constructor
  · intro hslice
    unfold slice? at hslice
    split at hslice
    · next hle =>
        obtain ⟨⟨front, rest⟩, hfront, hrest⟩ := Option.bind_eq_some_iff.1 hslice
        obtain ⟨⟨_, back⟩, hback, hmiddle⟩ := Option.bind_eq_some_iff.1 hrest
        obtain ⟨rfl, rfl⟩ := cut?_eq_some_iff.1 hfront
        obtain ⟨rfl, hlength⟩ := cut?_eq_some_iff.1 hback
        obtain rfl := Option.some.inj hmiddle
        exact ⟨front, back, rfl, rfl, by rw [hlength, Nat.add_sub_cancel' hle]⟩
    · exact absurd hslice nofun
  · rintro ⟨front, back, htext, hstart, hstop⟩
    exact slice?_of_eq_append htext hstart hstop

theorem getElem?_encode_of_eq_append {text front middle back : Text}
    (htext : text = front ++ (middle ++ back)) {offset : Nat} (hle : byteLength front ≤ offset)
    (hlt : offset < byteLength front + byteLength middle) :
    (encode text)[offset]? = (encode middle)[offset - byteLength front]? := by
  rw [htext, encode_append, encode_append, List.getElem?_append_right (by simpa using hle),
    length_encode, List.getElem?_append_left (by simp; omega)]

theorem isBoundary_of_eq_append {text front back : Text} (htext : text = front ++ back)
    {offset : Nat} (hoffset : byteLength front = offset) : text.isBoundary offset := by
  rw [isBoundary, cut?_eq_some_iff.2 ⟨htext, hoffset⟩]
  rfl

/-- A range of whole characters, no byte of which is a line feed. -/
structure IsLineSpan (text : Text) (span : Span) : Prop where
  proper : span.start ≤ span.stop
  start_boundary : text.isBoundary span.start
  stop_boundary : text.isBoundary span.stop
  newline_not_mem : ∀ offset, span.Covers offset → (encode text)[offset]? ≠ some newline

/-- A line feed stands right before the second span, and a carriage return may stand before it,
behind the start of the first. Just these are between the spans. -/
def Separates (text : Text) (span next : Span) : Prop :=
  text.slice? span.stop next.start = some
    (if span.start + 1 < next.start ∧ (encode text)[next.start - 2]? = some carriageReturn then
      ['\r', '\n']
    else
      ['\n'])

/-- The slices of spans, each with what stands between it and the next one. -/
def rejoin (text : Text) : List Span → Text
  | [] => []
  | [last] => text.slice last.start last.stop
  | span :: next :: rest =>
      text.slice span.start span.stop ++ text.slice span.stop next.start ++
        text.rejoin (next :: rest)

end Text

@[simp] theorem Line.start_span (line : Line) : line.span.start = line.start := rfl

@[simp] theorem Line.stop_span (line : Line) : line.span.stop = line.stop := rfl

namespace LineTable

/-! ### Where a line starts -/

theorem start_of_layOut_eq_append {start : Nat} {pieces : List Text} {front back : List Line}
    {line : Line} (hsplit : layOut start pieces = front ++ line :: back) :
    line.start = start + Text.byteLength (front.flatMap Line.text) := by
  fun_induction layOut start pieces generalizing front with
  | case1 => simp at hsplit
  | case2 start last =>
      cases front with
      | nil =>
          obtain ⟨rfl, -⟩ := List.cons.inj hsplit
          rfl
      | cons => simp at hsplit
  | case3 start piece others _ ih =>
      cases front with
      | nil =>
          obtain ⟨rfl, -⟩ := List.cons.inj hsplit
          unfold Line.terminated
          split <;> rfl
      | cons first front =>
          obtain ⟨rfl, hrest⟩ := List.cons.inj hsplit
          have hfeed : Char.utf8Size '\n' = 1 := rfl
          simp [ih hrest, Line.text_terminated, hfeed, Nat.add_assoc]

theorem isLaidOut_append {shapes others : List (Text × LineEnding)} (hothers : others ≠ [])
    (hlaid : IsLaidOut (shapes ++ others)) :
    (∀ shape ∈ shapes, IsEnded shape) ∧ IsLaidOut others := by
  induction shapes with
  | nil => exact ⟨nofun, hlaid⟩
  | cons shape rest ih =>
      rw [List.cons_append, isLaidOut_cons (by simp [hothers])] at hlaid
      obtain ⟨hnewline, hending, hreturn, hrest⟩ := hlaid
      obtain ⟨hended, hlaid⟩ := ih hrest
      exact ⟨List.forall_mem_cons.2 ⟨⟨hnewline, hending, hreturn⟩, hended⟩, hlaid⟩

section Split

variable {text : Text} {front back : List Line} {line : Line}
  (hsplit : (ofText text).lines = front ++ line :: back)
include hsplit

theorem text_eq_of_split :
    text = front.flatMap Line.text ++ (line.text ++ back.flatMap Line.text) := by
  have htext := flatMap_text_ofText text
  rw [hsplit, List.flatMap_append, List.flatMap_cons] at htext
  exact htext.symm

theorem start_of_split : line.start = Text.byteLength (front.flatMap Line.text) := by
  rw [start_of_layOut_eq_append hsplit, Nat.zero_add]

theorem isLaidOut_of_split :
    (∀ before ∈ front, IsEnded before.shape) ∧ IsLaidOut (line.shape :: back.map Line.shape) := by
  have hlaid := isLaidOut_ofText text
  rw [hsplit, List.map_append, List.map_cons] at hlaid
  simpa using isLaidOut_append (List.cons_ne_nil _ _) hlaid

theorem newline_not_mem_of_split : '\n' ∉ line.content := by
  obtain ⟨-, hlaid⟩ := isLaidOut_of_split hsplit
  cases back with
  | nil => exact hlaid.1
  | cons => exact hlaid.1

theorem content_of_split : text.slice? line.start line.stop = some line.content := by
  have htext := text_eq_of_split hsplit
  rw [Line.text, List.append_assoc] at htext
  exact Text.slice?_of_eq_append htext (start_of_split hsplit).symm rfl

theorem isLineSpan_of_split : text.IsLineSpan line.span := by
  have hstart := start_of_split hsplit
  have htext := text_eq_of_split hsplit
  have hwhole : text = front.flatMap Line.text ++ line.content ++
      (line.ending.text ++ back.flatMap Line.text) := by
    simpa [Line.text] using htext
  refine ⟨Nat.le_add_right _ _, Text.isBoundary_of_eq_append htext hstart.symm,
    Text.isBoundary_of_eq_append hwhole ?_, ?_⟩
  · simp [Line.span, Line.stop, hstart]
  · rintro offset ⟨hle, hlt⟩ hbyte
    have hcovered : offset < line.start + Text.byteLength line.content := hlt
    rw [List.append_assoc] at hwhole
    rw [Text.getElem?_encode_of_eq_append hwhole (hstart ▸ hle) (hstart ▸ hcovered)] at hbyte
    have hmem := List.mem_of_getElem? hbyte
    exact newline_not_mem_of_split hsplit (Text.newline_mem_encode.1 hmem)

end Split

/-! ### What stands between two lines -/

section Next

variable {text : Text} {front back : List Line} {line next : Line}
  (hsplit : (ofText text).lines = front ++ line :: next :: back)
include hsplit

theorem isEnded_of_split : IsEnded line.shape := by
  obtain ⟨-, hnewline, hending, hreturn, -⟩ := isLaidOut_of_split hsplit
  exact ⟨hnewline, hending, hreturn⟩

theorem start_next_of_split : next.start = line.stop + Text.byteLength line.ending.text := by
  have hnext : (ofText text).lines = (front ++ [line]) ++ next :: back := by simp [hsplit]
  rw [start_of_split hnext, Line.stop, start_of_split hsplit]
  simp [Line.text, Nat.add_assoc]

theorem ending_of_split : text.slice? line.stop next.start = some line.ending.text := by
  have htext : text = front.flatMap Line.text ++ line.content ++
      (line.ending.text ++ (next :: back).flatMap Line.text) := by
    simpa [Line.text] using text_eq_of_split hsplit
  refine Text.slice?_of_eq_append htext ?_ (start_next_of_split hsplit).symm
  simp [Line.stop, start_of_split hsplit]

/-- A carriage return right before the line feed belongs to the ending of the line. -/
theorem carriageReturn_of_split :
    line.start + 1 < next.start ∧ (Text.encode text)[next.start - 2]? = some Text.carriageReturn ↔
      line.ending = .carriageReturnNewline := by
  have hstart := start_of_split hsplit
  have hnext := start_next_of_split hsplit
  have hstop : line.stop = line.start + Text.byteLength line.content := rfl
  obtain ⟨-, hended, hreturn⟩ := isEnded_of_split hsplit
  have htext := text_eq_of_split hsplit
  rw [Line.text, List.append_assoc] at htext
  cases hending : line.ending with
  | none => exact absurd hending hended
  | newline =>
      have hfeed : Text.byteLength LineEnding.newline.text = 1 := rfl
      rw [hending, hfeed] at hnext
      simp only [reduceCtorEq, iff_false, not_and]
      intro hlt hbyte
      rw [Text.getElem?_encode_of_eq_append htext (by omega) (by omega)] at hbyte
      have hlast : next.start - 2 - Text.byteLength (front.flatMap Line.text) =
          (Text.encode line.content).length - 1 := by
        rw [Text.length_encode]
        omega
      rw [hlast, ← List.getLast?_eq_getElem?, Text.getLast?_encode] at hbyte
      exact hreturn hending hbyte
  | carriageReturnNewline =>
      have hfeed : Text.byteLength LineEnding.carriageReturnNewline.text = 2 := rfl
      rw [hending, hfeed] at hnext
      rw [hending, ← List.append_assoc] at htext
      have hfront : Text.byteLength (front.flatMap Line.text ++ line.content) = line.stop := by
        simp [hstop, hstart]
      simp only [iff_true]
      refine ⟨by omega, ?_⟩
      rw [Text.getElem?_encode_of_eq_append htext (by omega) (by omega)]
      have hfirst : next.start - 2 -
          Text.byteLength (front.flatMap Line.text ++ line.content) = 0 := by omega
      rw [hfirst]
      rfl

theorem separates_of_split : text.Separates line.span next.span := by
  obtain ⟨-, hended, -⟩ := isEnded_of_split hsplit
  rw [Text.Separates, Line.stop_span, Line.start_span, Line.start_span, ending_of_split hsplit,
    if_congr (carriageReturn_of_split hsplit) rfl rfl]
  cases hending : line.ending with
  | none => exact absurd hending hended
  | newline => rfl
  | carriageReturnNewline => rfl

end Next

/-! ### The text put together again -/

theorem rejoin_of_split {text : Text} {front back : List Line}
    (hsplit : (ofText text).lines = front ++ back) :
    text.rejoin (back.map Line.span) = back.flatMap Line.text := by
  induction back generalizing front with
  | nil => rfl
  | cons line back ih =>
      have hcontent : text.slice line.start line.stop = line.content := by
        rw [Text.slice, content_of_split hsplit]
        rfl
      cases back with
      | nil =>
          have hlast : line.ending = .none := (isLaidOut_of_split hsplit).2.2
          simp [Text.rejoin, Line.span, Line.text, hcontent, hlast, LineEnding.text]
      | cons next back =>
          have hending : text.slice line.stop next.start = line.ending.text := by
            rw [Text.slice, ending_of_split hsplit]
            rfl
          have hnext : (ofText text).lines = (front ++ [line]) ++ next :: back := by simp [hsplit]
          calc text.rejoin ((line :: next :: back).map Line.span)
              = text.slice line.start line.stop ++ text.slice line.stop next.start ++
                  text.rejoin ((next :: back).map Line.span) := rfl
            _ = line.text ++ (next :: back).flatMap Line.text := by
                rw [hcontent, hending, ih hnext, Line.text]
            _ = (line :: next :: back).flatMap Line.text := rfl

/-! ### As many lines as line feeds, and one -/

/-- The text of a line that a line feed ends, up to the line feed. -/
theorem exists_piece_of_isEnded {line : Line} (hended : IsEnded line.shape) :
    ∃ piece, line.text = piece ++ ['\n'] ∧ Text.newline ∉ Text.encode piece := by
  obtain ⟨hnewline, hending, -⟩ := hended
  cases hkind : line.ending with
  | none => exact absurd hkind hending
  | newline =>
      refine ⟨line.content, by simp [Line.text, hkind, LineEnding.text], ?_⟩
      exact fun hmem => hnewline (Text.newline_mem_encode.1 hmem)
  | carriageReturnNewline =>
      refine ⟨line.content ++ ['\r'], by simp [Line.text, hkind, LineEnding.text], fun hmem => ?_⟩
      have hcontent := Text.newline_mem_encode.1 hmem
      simp at hcontent
      exact hnewline hcontent

theorem count_newline_lines {lines : List Line} (hlines : ∀ line ∈ lines, IsEnded line.shape) :
    (Text.encode (lines.flatMap Line.text)).count Text.newline = lines.length := by
  induction lines with
  | nil => rfl
  | cons line rest ih =>
      rw [List.forall_mem_cons] at hlines
      obtain ⟨piece, htext, hpiece⟩ := exists_piece_of_isEnded hlines.1
      have hfeed : (String.utf8EncodeChar '\n').count Text.newline = 1 := rfl
      simp [htext, List.count_eq_zero.2 hpiece, hfeed, ih hlines.2]
      omega

/-! ### The last line -/

theorem exists_last (text : Text) : ∃ front last, (ofText text).lines = front ++ [last] := by
  rcases List.eq_nil_or_concat (ofText text).lines with hlines | ⟨front, last, hlines⟩
  · exact absurd hlines (List.length_pos_iff.1 (count_ofText_pos text))
  · exact ⟨front, last, by rw [hlines, List.concat_eq_append]⟩

section Last

variable {text : Text} {front : List Line} {last : Line}
  (hlines : (ofText text).lines = front ++ [last])
include hlines

theorem text_eq_of_last : text = front.flatMap Line.text ++ last.content := by
  have htext := text_eq_of_split hlines
  have hending : last.ending = .none := (isLaidOut_of_split hlines).2.2
  simpa [Line.text, hending, LineEnding.text] using htext

theorem count_newline_of_last : (Text.encode text).count Text.newline = front.length := by
  have hlast : Text.newline ∉ Text.encode last.content :=
    fun hmem => newline_not_mem_of_split hlines (Text.newline_mem_encode.1 hmem)
  rw [text_eq_of_last hlines, Text.encode_append, List.count_append,
    count_newline_lines (isLaidOut_of_split hlines).1, List.count_eq_zero.2 hlast, Nat.add_zero]

theorem stop_of_last : last.stop = (Text.encode text).length := by
  rw [text_eq_of_last hlines, Text.length_encode, Text.byteLength_append, ← start_of_split hlines,
    Line.stop]

end Last

theorem exists_first (text : Text) : ∃ first, (ofText text).lines.head? = some first := by
  cases hlines : (ofText text).lines with
  | nil => exact absurd hlines (List.length_pos_iff.1 (count_ofText_pos text))
  | cons first rest => exact ⟨first, rfl⟩

theorem start_of_head? {text : Text} {first : Line}
    (hfirst : (ofText text).lines.head? = some first) :
    first.start = 0 := by
  obtain ⟨back, hlines⟩ := List.head?_eq_some_iff.1 hfirst
  have hsplit : (ofText text).lines = [] ++ first :: back := hlines
  exact start_of_split hsplit

/-- **The lines of a text are a partition of it.** There is one line more than there are line feeds.
The lines go from the start of the text to its end, their spans are whole characters and hold no
line feed, and two of them are separated by a line feed, with the carriage return that stands before
it on the line. Put together with what separates them, they are the text. -/
theorem spans_partition (text : Text) :
    let spans := (ofText text).lines.map Line.span
    spans.length = (Text.encode text).count Text.newline + 1 ∧
      spans.head?.map Span.start = some 0 ∧
      spans.getLast?.map Span.stop = some (Text.encode text).length ∧
      (∀ span ∈ spans, text.IsLineSpan span) ∧
      spans.IsChain text.Separates ∧
      text.rejoin spans = text := by
  obtain ⟨front, last, hlines⟩ := exists_last text
  refine ⟨?count, ?first, ?last, ?spans, ?gaps, ?whole⟩
  case count => simp [count_newline_of_last hlines, hlines]
  case first =>
    obtain ⟨first, hfirst⟩ := exists_first text
    simp [hfirst, start_of_head? hfirst]
  case last => simp [hlines, stop_of_last hlines]
  case spans =>
    intro span hspan
    obtain ⟨line, hline, rfl⟩ := List.mem_map.1 hspan
    obtain ⟨before, back, hsplit⟩ := List.append_of_mem hline
    exact isLineSpan_of_split hsplit
  case gaps =>
    rw [List.isChain_map, List.isChain_iff_forall_rel_of_append_cons_cons]
    exact fun line next before back hsplit => separates_of_split hsplit
  case whole =>
    rw [rejoin_of_split (List.nil_append _).symm]
    exact flatMap_text_ofText text

/-- A carriage return behind another one, one alone on its line, and one at the start of a line. -/
def returnsText : Text :=
  ['é', '\r', '\r', '\n', '\r', '\n', '\r', 'b', '\n']

theorem spans_partition_returns :
    (ofText returnsText).lines.map Line.span = [⟨0, 3⟩, ⟨5, 5⟩, ⟨7, 9⟩, ⟨10, 10⟩] ∧
      returnsText.IsLineSpan ⟨0, 3⟩ ∧ returnsText.Separates ⟨0, 3⟩ ⟨5, 5⟩ ∧
      returnsText.Separates ⟨5, 5⟩ ⟨7, 9⟩ ∧ returnsText.Separates ⟨7, 9⟩ ⟨10, 10⟩ ∧
      (Text.encode returnsText).count Text.newline = 3 := by
  have hspans : (ofText returnsText).lines.map Line.span =
      [⟨0, 3⟩, ⟨5, 5⟩, ⟨7, 9⟩, ⟨10, 10⟩] := rfl
  obtain ⟨hcount, -, -, hlines, hgaps, -⟩ := spans_partition returnsText
  rw [hspans] at hcount hlines hgaps
  simp only [List.isChain_cons_cons] at hgaps
  obtain ⟨hfirst, hsecond, hthird, -⟩ := hgaps
  exact ⟨hspans, hlines _ List.mem_cons_self, hfirst, hsecond, hthird, (Nat.succ.inj hcount).symm⟩

end LineTable

end HclEdit
