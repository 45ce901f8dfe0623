import HclEdit.Proofs.Lines.Shape
import HclEdit.Proofs.Text.Bytes

/-!
# Lines found byte by byte

The spans of lines can also be found in one pass over the bytes of a text, without regard to its
characters: at every line feed a line is closed, in front of a carriage return right before the line
feed as long as that is on the line.
-/

namespace HclEdit

/-- The lines closed so far, and where the next one starts. -/
structure LineScan where
  closed : List Span
  start : Nat

namespace LineScan

variable (bytes : Bytes)

/-- Looks at the byte at an offset. -/
def next (scan : LineScan) (entry : UInt8 × Nat) : LineScan :=
  let (byte, offset) := entry
  if byte = Text.newline then
    let stop :=
      if scan.start < offset ∧ bytes[offset - 1]? = some Text.carriageReturn then offset - 1
      else offset
    ⟨scan.closed ++ [⟨scan.start, stop⟩], offset + 1⟩
  else
    scan

/-- What is left behind the last line feed is a line too. -/
def spans (scan : LineScan) : List Span :=
  scan.closed ++ [⟨scan.start, bytes.length⟩]

end LineScan

/-- The spans of the lines that bytes make up. -/
def Bytes.lineSpans (bytes : Bytes) : List Span :=
  (bytes.zipIdx.foldl (LineScan.next bytes) ⟨[], 0⟩).spans bytes

namespace LineScan

variable {bytes : Bytes}

theorem foldl_next_of_not_mem {part : Bytes} (hpart : Text.newline ∉ part) (offset : Nat)
    (scan : LineScan) : (part.zipIdx offset).foldl (next bytes) scan = scan := by
  induction part generalizing offset with
  | nil => rfl
  | cons byte rest ih =>
      rw [List.mem_cons, not_or] at hpart
      rw [List.zipIdx_cons, List.foldl_cons, next, if_neg (Ne.symm hpart.1), ih hpart.2]

/-- The byte before a line feed, if it is on the line. -/
theorem lt_and_getElem?_iff {before : Bytes} {piece : Text} {rest : Bytes}
    (hbytes : bytes = before ++ (Text.encode piece ++ rest)) :
    (before.length < before.length + Text.byteLength piece ∧
        bytes[before.length + Text.byteLength piece - 1]? = some Text.carriageReturn) ↔
      piece.getLast? = some '\r' := by
  rw [← Text.getLast?_encode, List.getLast?_eq_getElem?, Text.length_encode]
  rcases Nat.eq_zero_or_pos (Text.byteLength piece) with hempty | hpos
  · have hnil : Text.encode piece = [] := List.length_eq_zero_iff.1 (by simpa using hempty)
    simp [hempty, hnil]
  · have hoffset : before.length + Text.byteLength piece - 1 - before.length =
        Text.byteLength piece - 1 := by omega
    rw [hbytes, List.getElem?_append_right (by omega), hoffset,
      List.getElem?_append_left (by rw [Text.length_encode]; omega)]
    exact and_iff_right (by omega)

theorem stop_terminated (start : Nat) (piece : Text) :
    (Line.terminated start piece).stop =
      if piece.getLast? = some '\r' then start + Text.byteLength piece - 1
      else start + Text.byteLength piece := by
  unfold Line.terminated
  by_cases hreturn : piece.getLast? = some '\r'
  · obtain ⟨front, rfl⟩ := List.getLast?_eq_some_iff.1 hreturn
    have hlength : Char.utf8Size '\r' = 1 := rfl
    simp [Line.stop, hlength]
  · simp [Line.stop, hreturn]

/-- **One line.** A scan that starts a line at a piece without line feeds, and finds a line feed
behind it, closes that line. -/
theorem foldl_next_piece {before : Bytes} {piece : Text} (hpiece : '\n' ∉ piece) {rest : Bytes}
    (hbytes : bytes = before ++ (Text.encode piece ++ Text.newline :: rest)) (closed : List Span) :
    ((Text.encode piece ++ Text.newline :: rest).zipIdx before.length).foldl (next bytes)
        ⟨closed, before.length⟩ =
      (rest.zipIdx (before.length + Text.byteLength piece + 1)).foldl (next bytes)
        ⟨closed ++ [(Line.terminated before.length piece).span],
          before.length + Text.byteLength piece + 1⟩ := by
  have hnewline : Text.newline ∉ Text.encode piece := fun h => hpiece (Text.newline_mem_encode.1 h)
  have hstart : (Line.terminated before.length piece).start = before.length := by
    unfold Line.terminated
    split <;> rfl
  rw [List.zipIdx_append, List.foldl_append, foldl_next_of_not_mem hnewline, List.zipIdx_cons,
    List.foldl_cons, Text.length_encode]
  congr 1
  simp only [next, if_true, Line.span, hstart, stop_terminated,
    if_congr (lt_and_getElem?_iff hbytes) rfl rfl]

/-- **All lines.** What a scan closes from the start of a line on are the lines laid out there. -/
theorem spans_foldl_next {before : Bytes} {pieces : List Text} (hpieces : pieces ≠ [])
    (hnewline : ∀ piece ∈ pieces, '\n' ∉ piece)
    (hbytes : bytes = before ++ Text.encode (Text.join ['\n'] pieces)) (closed : List Span) :
    (((Text.encode (Text.join ['\n'] pieces)).zipIdx before.length).foldl (next bytes)
        ⟨closed, before.length⟩).spans bytes =
      closed ++ (LineTable.layOut before.length pieces).map Line.span := by
  induction pieces generalizing before closed with
  | nil => exact absurd rfl hpieces
  | cons piece others ih =>
      rw [List.forall_mem_cons] at hnewline
      by_cases hothers : others = []
      · subst hothers
        have hlast : Text.newline ∉ Text.encode piece :=
          fun h => hnewline.1 (Text.newline_mem_encode.1 h)
        have hjoin : Text.join ['\n'] [piece] = piece := rfl
        rw [hjoin] at hbytes ⊢
        rw [foldl_next_of_not_mem hlast, spans, hbytes, List.length_append, Text.length_encode]
        rfl
      · have hjoin : Text.encode (Text.join ['\n'] (piece :: others)) =
            Text.encode piece ++ Text.newline :: Text.encode (Text.join ['\n'] others) := by
          rw [Text.join_cons hothers, Text.encode_append, Text.encode_append, List.append_assoc]
          rfl
        rw [hjoin] at hbytes ⊢
        have hrest : bytes = (before ++ Text.encode piece ++ [Text.newline]) ++
            Text.encode (Text.join ['\n'] others) := by
          simpa using hbytes
        have hlength : (before ++ Text.encode piece ++ [Text.newline]).length =
            before.length + Text.byteLength piece + 1 := by simp [Nat.add_assoc]
        have hlater := ih hothers hnewline.2 hrest
          (closed ++ [(Line.terminated before.length piece).span])
        rw [hlength] at hlater
        rw [foldl_next_piece hnewline.1 hbytes, hlater, LineTable.layOut_cons hothers,
          List.map_cons, List.append_assoc, List.singleton_append]

end LineScan

/-- **A pass over the bytes finds the lines.** -/
theorem LineTable.lineSpans_encode (text : Text) :
    (Text.encode text).lineSpans = (ofText text).lines.map Line.span := by
  have hbytes : Text.encode text =
      [] ++ Text.encode (Text.join ['\n'] (text.pieces (· == '\n'))) := by
    rw [Text.join_pieces, List.nil_append]
  have hspans := LineScan.spans_foldl_next (Text.pieces_ne_nil (· == '\n') text)
    (fun _ => Text.newline_not_mem_pieces) hbytes []
  rw [Text.join_pieces] at hspans
  exact hspans

end HclEdit
