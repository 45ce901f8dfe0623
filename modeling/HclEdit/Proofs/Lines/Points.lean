import HclEdit.Proofs.Document.Edits
import Mathlib.Data.List.DropRight
import Mathlib.Order.Monotone.Defs

/-!
# Offsets as rows and columns

The row of an offset counts the line feeds before it, and its column the bytes since the last of
them. A point therefore depends only on the text before its offset, and moves on over what is put
there byte by byte.
-/

namespace HclEdit

/-! ### Going on from a point -/

namespace Point

def origin : Point :=
  ⟨0, 0⟩

/-- The point behind bytes that start at a point. -/
def advance (point : Point) (bytes : Bytes) : Point :=
  { row := point.row + bytes.count Text.newline
    column :=
      if Text.newline ∈ bytes then (bytes.rtakeWhile (· ≠ Text.newline)).length
      else point.column + bytes.length }

theorem advance_nil (point : Point) : point.advance [] = point := rfl

theorem advance_concat (point : Point) (bytes : Bytes) (byte : UInt8) :
    point.advance (bytes ++ [byte]) =
      if byte = Text.newline then ⟨(point.advance bytes).row + 1, 0⟩
      else ⟨(point.advance bytes).row, (point.advance bytes).column + 1⟩ := by
  by_cases hbyte : byte = Text.newline
  · simp [advance, hbyte, Nat.add_assoc]
  · by_cases hmem : Text.newline ∈ bytes
    · simp [advance, hbyte, hmem, Ne.symm hbyte]
    · simp [advance, hbyte, hmem, Ne.symm hbyte, Nat.add_assoc]

theorem advance_append (point : Point) (bytes more : Bytes) :
    point.advance (bytes ++ more) = (point.advance bytes).advance more := by
  induction more using List.reverseRecOn with
  | nil => rw [List.append_nil, advance_nil]
  | append_singleton more byte ih => rw [← List.append_assoc, advance_concat, advance_concat, ih]

theorem advance_of_not_mem {bytes : Bytes} (hbytes : Text.newline ∉ bytes) (point : Point) :
    point.advance bytes = ⟨point.row, point.column + bytes.length⟩ := by
  simp [advance, hbytes, List.count_eq_zero.2 hbytes]

end Point

namespace LineTable

variable {text : Text}

/-! ### The line of an offset -/

theorem pairwise_start (text : Text) :
    (ofText text).lines.Pairwise fun line next => line.start < next.start := by
  rw [← List.pairwise_map, ← List.isChain_iff_pairwise, List.isChain_map,
    List.isChain_iff_forall_rel_of_append_cons_cons]
  intro line next front back hsplit
  have hnext := start_next_of_split hsplit
  obtain ⟨-, hending, -⟩ := isEnded_of_split hsplit
  have hpos : 0 < Text.byteLength line.ending.text := by
    cases hkind : line.ending with
    | none => exact absurd hkind hending
    | newline => decide
    | carriageReturnNewline => decide
  have hstop : line.start ≤ line.stop := Nat.le_add_right _ _
  omega

theorem start_lt_start {row other : Nat} {line next : Line}
    (hline : (ofText text).line? row = some line) (hnext : (ofText text).line? other = some next)
    (hlt : row < other) : line.start < next.start := by
  obtain ⟨hrow, rfl⟩ := List.getElem?_eq_some_iff.1 hline
  obtain ⟨hother, rfl⟩ := List.getElem?_eq_some_iff.1 hnext
  exact List.pairwise_iff_getElem.1 (pairwise_start text) row other hrow hother hlt

theorem lt_start_of_mem_dropWhile {offset : Nat} {line : Line}
    (hline : line ∈ (ofText text).lines.dropWhile (·.start ≤ offset)) : offset < line.start := by
  have hhead := List.head?_dropWhile_not (fun line : Line => decide (line.start ≤ offset))
    (ofText text).lines
  have hordered := (pairwise_start text).sublist
    (List.dropWhile_sublist fun line => decide (line.start ≤ offset))
  cases hrest : (ofText text).lines.dropWhile (·.start ≤ offset) with
  | nil => simp [hrest] at hline
  | cons first rest =>
      rw [hrest] at hhead hordered hline
      have hfirst : offset < first.start := by simpa using hhead
      rcases List.mem_cons.1 hline with rfl | hline
      · exact hfirst
      · exact Nat.lt_trans hfirst ((List.pairwise_cons.1 hordered).1 line hline)

/-- The row of an offset parts the lines that start up to it from those that start behind it. -/
theorem exists_split_of_offset (text : Text) (offset : Nat) :
    ∃ before line behind, (ofText text).lines = before ++ line :: behind ∧
      (ofText text).rowOf offset = before.length ∧ line.start ≤ offset ∧
      ∀ next ∈ behind, offset < next.start := by
  have hreached : ∀ line ∈ (ofText text).lines.takeWhile (·.start ≤ offset),
      line.start ≤ offset := by
    intro line hline
    simpa using List.mem_takeWhile_imp hline
  have hbehind : ∀ next ∈ (ofText text).lines.dropWhile (·.start ≤ offset),
      offset < next.start := fun next => lt_start_of_mem_dropWhile
  have hlines := (List.takeWhile_append_dropWhile
    (p := fun line : Line => line.start ≤ offset) (l := (ofText text).lines)).symm
  unfold rowOf
  generalize (ofText text).lines.takeWhile (·.start ≤ offset) = reached at *
  generalize (ofText text).lines.dropWhile (·.start ≤ offset) = behind at *
  rcases List.eq_nil_or_concat reached with rfl | ⟨before, line, rfl⟩
  -- The first line starts at zero, so it is reached in any case.
  · obtain ⟨first, hfirst⟩ := exists_first text
    have hmem := List.mem_of_mem_head? hfirst
    rw [hlines] at hmem
    have hstart := start_of_head? hfirst
    have hlt := hbehind first hmem
    omega
  · refine ⟨before, line, behind, by simpa using hlines, by simp, hreached line ?_, hbehind⟩
    simp

theorem exists_line?_rowOf (text : Text) (offset : Nat) :
    ∃ line, (ofText text).line? ((ofText text).rowOf offset) = some line ∧ line.start ≤ offset := by
  obtain ⟨before, line, behind, hsplit, hrow, hstart, -⟩ := exists_split_of_offset text offset
  exact ⟨line, by simp [line?, hsplit, hrow], hstart⟩

/-- Just the lines up to the row of an offset start at the offset or before it. -/
theorem le_rowOf_iff {row : Nat} {line : Line} (hline : (ofText text).line? row = some line)
    (offset : Nat) : row ≤ (ofText text).rowOf offset ↔ line.start ≤ offset := by
  obtain ⟨before, current, behind, hsplit, hrow, hstart, hbehind⟩ :=
    exists_split_of_offset text offset
  have hcurrent : (ofText text).line? before.length = some current := by simp [line?, hsplit]
  rw [hrow]
  rcases Nat.lt_trichotomy row before.length with hlt | rfl | hlt
  · have hlower := start_lt_start hline hcurrent hlt
    omega
  · rw [Option.some.inj (hline.symm.trans hcurrent)]
    exact iff_of_true (Nat.le_refl _) hstart
  · have hmem : line ∈ behind := by
      rw [line?, hsplit, ← List.singleton_append, ← List.append_assoc,
        List.getElem?_append_right (by simp; omega)] at hline
      exact List.mem_of_getElem? hline
    have hlater := hbehind line hmem
    omega

/-! ### Line feeds before an offset -/

/-- Behind lines that have all ended, a new line starts. -/
theorem advance_lines {lines : List Line} (hlines : ∀ line ∈ lines, IsEnded line.shape) :
    Point.origin.advance (Text.encode (lines.flatMap Line.text)) = ⟨lines.length, 0⟩ := by
  induction lines using List.reverseRecOn with
  | nil => rfl
  | append_singleton lines line ih =>
      rw [List.forall_mem_append, List.forall_mem_singleton] at hlines
      obtain ⟨piece, htext, hpiece⟩ := exists_piece_of_isEnded hlines.2
      have hbytes : Text.encode ((lines ++ [line]).flatMap Line.text) =
          Text.encode (lines.flatMap Line.text) ++ Text.encode piece ++ [Text.newline] := by
        have hfeed : String.utf8EncodeChar '\n' = [Text.newline] := rfl
        simp [htext, hfeed]
      rw [hbytes, Point.advance_concat, if_pos rfl, Point.advance_append, ih hlines.1,
        Point.advance_of_not_mem hpiece]
      simp

theorem newline_not_mem_take_of_split {before behind : List Line} {line : Line} {offset : Nat}
    (hsplit : (ofText text).lines = before ++ line :: behind)
    (hbehind : ∀ next ∈ behind, offset < next.start) :
    Text.newline ∉ (Text.encode (line.text ++ behind.flatMap Line.text)).take
      (offset - line.start) := by
  intro hmem
  cases behind with
  | nil =>
      have hending : line.ending = .none := (isLaidOut_of_split hsplit).2.2
      have hcontent := List.mem_of_mem_take hmem
      rw [Line.text, hending, List.flatMap_nil, LineEnding.text, List.append_nil, List.append_nil,
        Text.newline_mem_encode] at hcontent
      exact newline_not_mem_of_split hsplit hcontent
  | cons next behind =>
      obtain ⟨piece, htext, hpiece⟩ := exists_piece_of_isEnded (isEnded_of_split hsplit)
      have hnext := start_next_of_split hsplit
      have hlength : Text.byteLength line.content + Text.byteLength line.ending.text =
          Text.byteLength piece + 1 := by
        rw [← Text.byteLength_append, ← Line.text, htext, Text.byteLength_append]
        rfl
      have hoffset := hbehind next List.mem_cons_self
      have hle : offset - line.start ≤ (Text.encode piece).length := by
        rw [Text.length_encode]
        rw [Line.stop] at hnext
        omega
      rw [htext, List.append_assoc, Text.encode_append, List.take_append_of_le_length hle] at hmem
      exact hpiece (List.mem_of_mem_take hmem)

/-- The bytes before an offset are those of whole lines and then some of its own line. -/
theorem exists_take_eq_append (text : Text) (offset : Nat) :
    ∃ line front tail, (ofText text).line? ((ofText text).rowOf offset) = some line ∧
      line.start ≤ offset ∧ (Text.encode text).take offset = front ++ tail ∧
      front.length = line.start ∧ Point.origin.advance front = ⟨(ofText text).rowOf offset, 0⟩ ∧
      Text.newline ∉ tail := by
  obtain ⟨before, line, behind, hsplit, hrow, hstart, hbehind⟩ :=
    exists_split_of_offset text offset
  have hfront : (Text.encode (before.flatMap Line.text)).length = line.start := by
    rw [Text.length_encode, start_of_split hsplit]
  refine ⟨line, Text.encode (before.flatMap Line.text), _, by simp [line?, hsplit, hrow], hstart,
    ?_, hfront, ?_, newline_not_mem_take_of_split hsplit hbehind⟩
  · conv => lhs; rw [text_eq_of_split hsplit]
    rw [Text.encode_append, List.take_append, List.take_of_length_le (by omega), hfront]
  · rw [hrow]
    exact advance_lines (isLaidOut_of_split hsplit).1

theorem rowOf_eq_count (text : Text) (offset : Nat) :
    (ofText text).rowOf offset = ((Text.encode text).take offset).count Text.newline := by
  obtain ⟨line, front, tail, -, -, htake, -, hfront, htail⟩ := exists_take_eq_append text offset
  have hrow : front.count Text.newline = (ofText text).rowOf offset := by
    simpa [Point.advance, Point.origin] using congrArg Point.row hfront
  rw [htake, List.count_append, List.count_eq_zero.2 htail, hrow, Nat.add_zero]

theorem pointOf_eq (text : Text) {offset : Nat} {line : Line}
    (hline : (ofText text).line? ((ofText text).rowOf offset) = some line) :
    (ofText text).pointOf offset = ⟨(ofText text).rowOf offset, offset - line.start⟩ := by
  simp [pointOf, start, hline]

/-- Inside the text, a point is reached by going over the bytes before it. -/
theorem pointOf_eq_advance {text : Text} {offset : Nat} (hoffset : offset ≤ Text.byteLength text) :
    (ofText text).pointOf offset = Point.origin.advance ((Text.encode text).take offset) := by
  obtain ⟨line, front, tail, hline, -, htake, hlength, hfront, htail⟩ :=
    exists_take_eq_append text offset
  have htotal : front.length + tail.length = offset := by
    rw [← List.length_append, ← htake, List.length_take, Text.length_encode]
    exact Nat.min_eq_left hoffset
  have hcolumn : offset - line.start = 0 + tail.length := by omega
  rw [htake, Point.advance_append, hfront, Point.advance_of_not_mem htail, pointOf_eq text hline,
    hcolumn]

theorem pointOf_append (front back : Text) :
    (ofText (front ++ back)).pointOf (Text.byteLength front) =
      Point.origin.advance (Text.encode front) := by
  rw [pointOf_eq_advance (by simp), Text.encode_append]
  congr 1
  exact List.take_left' (Text.length_encode front)

theorem pointOf_append_append (front middle back : Text) :
    (ofText (front ++ middle ++ back)).pointOf (Text.byteLength front + Text.byteLength middle) =
      ((ofText (front ++ middle ++ back)).pointOf (Text.byteLength front)).advance
        (Text.encode middle) := by
  have hfront := pointOf_append front (middle ++ back)
  rw [← List.append_assoc] at hfront
  rw [hfront, ← Point.advance_append, ← Text.encode_append, ← Text.byteLength_append]
  exact pointOf_append (front ++ middle) back

/-! ### Looking for an offset among the starts -/

/-- What a search for an offset among the starts of the lines may come to: the line that starts
there, or else the one before the place at which such a line could be put in. -/
inductive Lookup (table : LineTable) (offset : Nat) : Nat → Prop where
  | hit {row : Nat} {line : Line} (hline : table.line? row = some line)
      (hstart : line.start = offset) : Lookup table offset row
  | miss {place : Nat} (hplace : place ≤ table.count)
      (hbefore : ∀ row line, table.line? row = some line → row < place → line.start < offset)
      (hbehind : ∀ row line, table.line? row = some line → place ≤ row → offset < line.start) :
      Lookup table offset (place - 1)

theorem lookup_rowOf (text : Text) (offset : Nat) :
    (ofText text).Lookup offset ((ofText text).rowOf offset) := by
  obtain ⟨line, hline, hstart⟩ := exists_line?_rowOf text offset
  by_cases hhit : line.start = offset
  · exact .hit hline hhit
  · have hcount : (ofText text).rowOf offset < (ofText text).count :=
      (List.getElem?_eq_some_iff.1 hline).1
    have hplace : (ofText text).rowOf offset = (ofText text).rowOf offset + 1 - 1 := rfl
    rw [hplace]
    refine .miss hcount (fun row other hother hlt => ?_) fun row other hother hle => ?_
    · rcases Nat.lt_or_eq_of_le (Nat.le_of_lt_succ hlt) with hlt | rfl
      · have hlower := start_lt_start hother hline hlt
        omega
      · rw [Option.some.inj (hother.symm.trans hline)]
        omega
    · have hbehind := (le_rowOf_iff hother offset).not.1 (Nat.not_le_of_lt hle)
      exact Nat.lt_of_not_le hbehind

theorem Lookup.eq_rowOf {offset row : Nat} (hlookup : (ofText text).Lookup offset row) :
    row = (ofText text).rowOf offset := by
  obtain ⟨current, hcurrent, hstart⟩ := exists_line?_rowOf text offset
  cases hlookup with
  | @hit _ line hline hhit =>
      have hle := (le_rowOf_iff hline offset).2 (Nat.le_of_eq hhit)
      rcases Nat.lt_or_eq_of_le hle with hlt | rfl
      · have hlower := start_lt_start hline hcurrent hlt
        omega
      · rfl
  | @miss place hplace hbefore hbehind =>
      have hrow : (ofText text).rowOf offset < place := by
        by_contra hle
        have hlower := hbehind _ current hcurrent (Nat.le_of_not_lt hle)
        omega
      have hcount : place - 1 < (ofText text).lines.length := by
        rw [count] at hplace
        omega
      have hline : (ofText text).line? (place - 1) = some (ofText text).lines[place - 1] :=
        List.getElem?_eq_getElem hcount
      have hlower := hbefore (place - 1) _ hline (by omega)
      have hle := (le_rowOf_iff hline offset).2 (Nat.le_of_lt hlower)
      omega

end LineTable

/-! ### Edits -/

theorem Edit.exists_of_apply_eq_ok {edit : Edit} {source edited : Text}
    (happly : edit.apply source = .ok edited) :
    ∃ front rest back, source = front ++ rest ∧ edited = front ++ edit.replacement ++ back ∧
      Text.byteLength front = edit.span.start := by
  obtain ⟨front, middle, back, hcuts⟩ := (fits_of_apply_eq_ok happly).exists_cuts
  rw [hcuts.apply_eq, hcuts.spliced_eq] at happly
  exact ⟨front, middle ++ back, back, hcuts.source_eq, (Except.ok.inj happly).symm,
    hcuts.start_eq⟩

namespace LineTable

theorem rowOf_le_count (text : Text) (offset : Nat) :
    (ofText text).rowOf offset ≤ (ofText text).count - 1 := by
  obtain ⟨line, hline, -⟩ := exists_line?_rowOf text offset
  exact Nat.le_sub_one_of_lt (List.getElem?_eq_some_iff.1 hline).1

theorem monotone_rowOf (text : Text) : Monotone (ofText text).rowOf := by
  intro offset later hle
  rw [rowOf_eq_count, rowOf_eq_count]
  exact (List.take_sublist_take_left hle).count_le _

theorem pointOf_of_apply_eq_ok {edit : Edit} {source edited : Text}
    (happly : edit.apply source = .ok edited) :
    (ofText edited).pointOf edit.span.start = (ofText source).pointOf edit.span.start ∧
      (ofText edited).pointOf (edit.span.start + Text.byteLength edit.replacement) =
        ((ofText source).pointOf edit.span.start).advance (Text.encode edit.replacement) := by
  obtain ⟨front, rest, back, rfl, rfl, hstart⟩ := edit.exists_of_apply_eq_ok happly
  have hsame : (ofText (front ++ edit.replacement ++ back)).pointOf (Text.byteLength front) =
      (ofText (front ++ rest)).pointOf (Text.byteLength front) := by
    rw [List.append_assoc, pointOf_append, pointOf_append]
  rw [← hstart, pointOf_append_append, hsame]
  exact ⟨rfl, rfl⟩

/-- **Rows count line feeds, and columns the bytes behind the last of them.** A search among the
starts of the lines comes to the row of an offset however it goes. The row is the number of line
feeds before the offset, so it grows with it and is that of a line, and the column is what is left
from the start of that line, also past the end. The point behind the front of a text does not depend
on what follows, and what follows moves it on. So an edit leaves the point at which it starts, and
ends at the point to which the replacement moves on from there. -/
theorem points_follow_bytes :
    (∀ (text : Text) (offset row : Nat),
      (ofText text).Lookup offset row ↔ row = (ofText text).rowOf offset) ∧
    (∀ (text : Text) (offset : Nat), (ofText text).rowOf offset =
      ((Text.encode text).take (min offset (Text.encode text).length)).count Text.newline) ∧
    (∀ text : Text, Monotone (ofText text).rowOf ∧
      ∀ offset, (ofText text).rowOf offset ≤ (ofText text).count - 1) ∧
    (∀ (text : Text) (offset : Nat), ∃ line,
      (ofText text).line? ((ofText text).rowOf offset) = some line ∧
        (ofText text).pointOf offset = ⟨(ofText text).rowOf offset, offset - line.start⟩ ∧
        line.start + ((ofText text).pointOf offset).column = offset) ∧
    (∀ front middle back : Text,
      let table := ofText (front ++ middle ++ back)
      table.pointOf (Text.byteLength front) = (ofText front).pointOf (Text.byteLength front) ∧
        table.pointOf (Text.byteLength front + Text.byteLength middle) =
          (table.pointOf (Text.byteLength front)).advance (Text.encode middle)) ∧
    (∀ (edit : Edit) (source edited : Text), edit.apply source = .ok edited →
      (ofText edited).pointOf edit.span.start = (ofText source).pointOf edit.span.start ∧
        (ofText edited).pointOf (edit.span.start + Text.byteLength edit.replacement) =
          ((ofText source).pointOf edit.span.start).advance (Text.encode edit.replacement)) := by
  refine ⟨?lookup, ?row, ?bounds, ?point, ?texts, ?edits⟩
  case lookup =>
    intro text offset row
    constructor
    · exact Lookup.eq_rowOf
    · rintro rfl
      exact lookup_rowOf text offset
  case row =>
    intro text offset
    rw [rowOf_eq_count, List.take_eq_take_min]
  case bounds => exact fun text => ⟨monotone_rowOf text, rowOf_le_count text⟩
  case point =>
    intro text offset
    obtain ⟨line, hline, hstart⟩ := exists_line?_rowOf text offset
    have hpoint := pointOf_eq text hline
    refine ⟨line, hline, hpoint, ?_⟩
    rw [hpoint]
    exact Nat.add_sub_cancel' hstart
  case texts =>
    intro front middle back
    refine ⟨?_, pointOf_append_append front middle back⟩
    have hfront := pointOf_append front []
    rw [List.append_nil] at hfront
    rw [List.append_assoc, pointOf_append, hfront]
  case edits => exact fun edit source edited => pointOf_of_apply_eq_ok

/-- A line break put in where a carriage return stood alone. -/
def returnEdit : Edit :=
  ⟨⟨4, 5⟩, ['é', '\r', '\n', 'b']⟩

theorem points_follow_bytes_replaced :
    returnEdit.apply ['a', '\n', 'é', '\r', 'c'] =
        .ok ['a', '\n', 'é', 'é', '\r', '\n', 'b', 'c'] ∧
      (ofText ['a', '\n', 'é', 'é', '\r', '\n', 'b', 'c']).pointOf 4 = ⟨1, 2⟩ ∧
      (ofText ['a', '\n', 'é', 'é', '\r', '\n', 'b', 'c']).pointOf 9 = ⟨2, 1⟩ := by
  have happly : returnEdit.apply ['a', '\n', 'é', '\r', 'c'] =
      .ok ['a', '\n', 'é', 'é', '\r', '\n', 'b', 'c'] := rfl
  obtain ⟨-, -, -, -, -, hedits⟩ := points_follow_bytes
  obtain ⟨hstart, hend⟩ := hedits returnEdit _ _ happly
  exact ⟨happly, hstart, hend⟩

end LineTable

end HclEdit
