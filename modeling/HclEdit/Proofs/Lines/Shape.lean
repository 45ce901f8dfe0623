import HclEdit.Lines
import HclEdit.Proofs.Lists
import HclEdit.Proofs.Text.Words

/-!
# Lines put together and taken apart again

A list of contents and endings is the list of lines of some text when no content holds a line feed,
only the last line lacks an ending, and no content before a bare line feed ends in a carriage
return. Such lines come back from the text that they make up.
-/

namespace HclEdit

def Line.shape (line : Line) : Text × LineEnding :=
  (line.content, line.ending)

@[simp] theorem Line.shape_terminated (start : Nat) (piece : Text) :
    (Line.terminated start piece).shape =
      if piece.getLast? = some '\r' then (piece.dropLast, .carriageReturnNewline)
      else (piece, .newline) := by
  unfold Line.terminated
  split <;> rfl

namespace Text

theorem separates_eq_false_of_not_mem {piece : Text} (hpiece : '\n' ∉ piece) :
    ∀ c ∈ piece, (c == '\n') = false := by
  intro c hc
  rw [beq_eq_false_iff_ne]
  rintro rfl
  exact hpiece hc

theorem pieces_of_not_mem {piece : Text} (hpiece : '\n' ∉ piece) :
    pieces (· == '\n') piece = [piece] :=
  pieces_of_not_separates (separates_eq_false_of_not_mem hpiece)

theorem pieces_append_newline {piece : Text} (hpiece : '\n' ∉ piece) (rest : Text) :
    pieces (· == '\n') (piece ++ '\n' :: rest) = piece :: pieces (· == '\n') rest :=
  pieces_append_separator (separates_eq_false_of_not_mem hpiece) (by decide) rest

theorem newline_not_mem_pieces {text piece : Text} (hpiece : piece ∈ pieces (· == '\n') text) :
    '\n' ∉ piece := by
  intro hmem
  have hnewline := not_separates_of_mem_pieces hpiece hmem
  exact absurd hnewline (by decide)

end Text

namespace LineTable

/-- Contents and endings as the lines of a text have them. -/
def IsLaidOut : List (Text × LineEnding) → Prop
  | [] => False
  | [(content, ending)] => '\n' ∉ content ∧ ending = .none
  | (content, ending) :: rest =>
      '\n' ∉ content ∧ ending ≠ .none ∧
        (ending = .newline → content.getLast? ≠ some '\r') ∧ IsLaidOut rest

theorem isLaidOut_cons {content : Text} {ending : LineEnding} {rest : List (Text × LineEnding)}
    (hrest : rest ≠ []) :
    IsLaidOut ((content, ending) :: rest) ↔
      '\n' ∉ content ∧ ending ≠ .none ∧
        (ending = .newline → content.getLast? ≠ some '\r') ∧ IsLaidOut rest := by
  cases rest with
  | nil => exact absurd rfl hrest
  | cons => rfl

theorem layOut_cons {start : Nat} {piece : Text} {others : List Text} (hothers : others ≠ []) :
    layOut start (piece :: others) =
      .terminated start piece :: layOut (start + Text.byteLength piece + 1) others := by
  cases others with
  | nil => exact absurd rfl hothers
  | cons => rfl

theorem layOut_ne_nil {start : Nat} {pieces : List Text} (hpieces : pieces ≠ []) :
    layOut start pieces ≠ [] := by
  rw [← List.length_pos_iff, length_layOut]
  exact List.length_pos_iff.2 hpieces

theorem isLaidOut_layOut (start : Nat) {pieces : List Text} (hpieces : pieces ≠ [])
    (hnewline : ∀ piece ∈ pieces, '\n' ∉ piece) :
    IsLaidOut ((layOut start pieces).map Line.shape) := by
  induction pieces generalizing start with
  | nil => exact absurd rfl hpieces
  | cons piece others ih =>
      rw [List.forall_mem_cons] at hnewline
      by_cases hothers : others = []
      · rw [hothers]
        exact ⟨hnewline.1, rfl⟩
      · have hrest := ih (start + Text.byteLength piece + 1) hothers hnewline.2
        have hne : (layOut (start + Text.byteLength piece + 1) others).map Line.shape ≠ [] := by
          rw [Ne, List.map_eq_nil_iff]
          exact layOut_ne_nil hothers
        rw [layOut_cons hothers, List.map_cons, Line.shape_terminated]
        by_cases hreturn : piece.getLast? = some '\r'
        · rw [if_pos hreturn, isLaidOut_cons hne]
          exact ⟨fun h => hnewline.1 (List.dropLast_subset _ h), nofun, nofun, hrest⟩
        · rw [if_neg hreturn, isLaidOut_cons hne]
          exact ⟨hnewline.1, nofun, fun _ => hreturn, hrest⟩

theorem isLaidOut_ofText (text : Text) : IsLaidOut ((ofText text).lines.map Line.shape) :=
  isLaidOut_layOut 0 (Text.pieces_ne_nil _ text) fun _ => Text.newline_not_mem_pieces

/-- Lines that are laid out are the lines of the text that they make up. -/
theorem shape_layOut_pieces (start : Nat) {shapes : List (Text × LineEnding)}
    (hshapes : IsLaidOut shapes) :
    (layOut start (Text.pieces (· == '\n')
        (shapes.flatMap fun shape => shape.1 ++ shape.2.text))).map Line.shape = shapes := by
  induction shapes generalizing start with
  | nil => exact absurd hshapes id
  | cons shape rest ih =>
      obtain ⟨content, ending⟩ := shape
      by_cases hrest : rest = []
      · subst hrest
        obtain ⟨hnewline, rfl⟩ := hshapes
        simp [LineEnding.text, Text.pieces_of_not_mem hnewline, layOut, Line.shape]
      · obtain ⟨hnewline, hending, hreturn, hlaid⟩ := (isLaidOut_cons hrest).1 hshapes
        have hpieces := Text.pieces_ne_nil (· == '\n')
          (rest.flatMap fun shape => shape.1 ++ shape.2.text)
        rw [List.flatMap_cons]
        cases ending with
        | none => exact absurd rfl hending
        | newline =>
            rw [LineEnding.text, List.append_assoc, List.singleton_append,
              Text.pieces_append_newline hnewline, layOut_cons hpieces, List.map_cons, ih _ hlaid,
              Line.shape_terminated, if_neg (hreturn rfl)]
        | carriageReturnNewline =>
            have hnewline' : '\n' ∉ content ++ ['\r'] := by
              simpa using hnewline
            have hsplit : content ++ ['\r', '\n'] = content ++ ['\r'] ++ ['\n'] := by simp
            rw [LineEnding.text, hsplit, List.append_assoc (content ++ ['\r']),
              List.singleton_append, Text.pieces_append_newline hnewline', layOut_cons hpieces,
              List.map_cons, ih _ hlaid, Line.shape_terminated, if_pos (by simp)]
            simp

theorem shape_ofText {shapes : List (Text × LineEnding)} (hshapes : IsLaidOut shapes) :
    (ofText (shapes.flatMap fun shape => shape.1 ++ shape.2.text)).lines.map Line.shape = shapes :=
  shape_layOut_pieces 0 hshapes

/-- Contents and endings as lines have them that a line feed ends. -/
def IsEnded (shape : Text × LineEnding) : Prop :=
  '\n' ∉ shape.1 ∧ shape.2 ≠ .none ∧ (shape.2 = .newline → shape.1.getLast? ≠ some '\r')

theorem isLaidOut_concat {shapes : List (Text × LineEnding)} {last : Text}
    (hshapes : ∀ shape ∈ shapes, IsEnded shape) (hlast : '\n' ∉ last) :
    IsLaidOut (shapes ++ [(last, .none)]) := by
  induction shapes with
  | nil => exact ⟨hlast, rfl⟩
  | cons shape rest ih =>
      rw [List.forall_mem_cons] at hshapes
      obtain ⟨⟨hnewline, hending, hreturn⟩, hrest⟩ := hshapes
      rw [List.cons_append, isLaidOut_cons (by simp)]
      exact ⟨hnewline, hending, hreturn, ih hrest⟩

theorem IsLaidOut.exists_concat {shapes : List (Text × LineEnding)} (hshapes : IsLaidOut shapes) :
    ∃ front last, shapes = front ++ [(last, .none)] ∧ (∀ shape ∈ front, IsEnded shape) ∧
      '\n' ∉ last := by
  induction shapes with
  | nil => exact absurd hshapes id
  | cons shape rest ih =>
      obtain ⟨content, ending⟩ := shape
      by_cases hrest : rest = []
      · subst hrest
        obtain ⟨hnewline, rfl⟩ := hshapes
        exact ⟨[], content, rfl, nofun, hnewline⟩
      · obtain ⟨hnewline, hending, hreturn, hlaid⟩ := (isLaidOut_cons hrest).1 hshapes
        obtain ⟨front, last, rfl, hfront, hlast⟩ := ih hlaid
        have hshape : IsEnded (content, ending) := ⟨hnewline, hending, hreturn⟩
        exact ⟨(content, ending) :: front, last, rfl, List.forall_mem_cons.2 ⟨hshape, hfront⟩,
          hlast⟩

end LineTable

namespace Text

/-- Lines come back as they are, but for an empty line without an ending after all others. -/
theorem lines_concat {shapes : List (Text × LineEnding)} {last : Text}
    (hshapes : ∀ shape ∈ shapes, LineTable.IsEnded shape) (hlast : '\n' ∉ last) :
    lines (shapes.flatMap (fun shape => shape.1 ++ shape.2.text) ++ last) =
      if last = [] then shapes.map Prod.fst else shapes.map Prod.fst ++ [last] := by
  have hshape := LineTable.shape_ofText (LineTable.isLaidOut_concat hshapes hlast)
  rw [List.flatMap_append, List.flatMap_singleton, LineEnding.text, List.append_nil] at hshape
  have hcontents := congrArg (List.map Prod.fst) hshape
  rw [List.map_map, List.map_append, List.map_singleton] at hcontents
  unfold lines
  rw [show Line.content = Prod.fst ∘ Line.shape from rfl, hcontents]
  dsimp only
  rw [List.getLast?_concat, List.dropLast_concat]
  simp only [Option.some.injEq]

/-- Lines that all have an ending come back, and no empty line after them. -/
theorem lines_of_isEnded {shapes : List (Text × LineEnding)}
    (hshapes : ∀ shape ∈ shapes, LineTable.IsEnded shape) :
    lines (shapes.flatMap fun shape => shape.1 ++ shape.2.text) = shapes.map Prod.fst := by
  have hlines := lines_concat hshapes List.not_mem_nil
  rwa [List.append_nil, if_pos rfl] at hlines

theorem lines_of_newlines {contents : List Text}
    (hcontents : ∀ content ∈ contents, '\n' ∉ content ∧ content.getLast? ≠ some '\r') :
    lines (contents.flatMap (· ++ ['\n'])) = contents := by
  have hshapes : ∀ shape ∈ contents.map (·, LineEnding.newline), LineTable.IsEnded shape := by
    intro shape hshape
    obtain ⟨content, hcontent, rfl⟩ := List.mem_map.1 hshape
    obtain ⟨hnewline, hreturn⟩ := hcontents content hcontent
    exact ⟨hnewline, nofun, fun _ => hreturn⟩
  have hlines := lines_of_isEnded hshapes
  rwa [List.flatMap_map, List.map_map, show Prod.fst ∘ (·, LineEnding.newline) = id from rfl,
    List.map_id] at hlines

/-! ### One text after another -/

/-- A text without a line feed is one line, unless it is empty. -/
theorem lines_of_newline_not_mem {text : Text} (htext : '\n' ∉ text) :
    lines text = if text = [] then [] else [text] :=
  lines_concat (List.forall_mem_nil _) htext

/-- What follows such a text starts a line. -/
def EndsLine (text : Text) : Prop :=
  ∀ last ∈ text.getLast?, last = '\n'

theorem exists_shapes (text : Text) :
    ∃ (shapes : List (Text × LineEnding)) (last : Text),
      text = shapes.flatMap (fun shape => shape.1 ++ shape.2.text) ++ last ∧
        (∀ shape ∈ shapes, LineTable.IsEnded shape) ∧ '\n' ∉ last := by
  obtain ⟨front, last, hconcat, hfront, hlast⟩ :=
    (LineTable.isLaidOut_ofText text).exists_concat
  refine ⟨front, last, ?_, hfront, hlast⟩
  have hwhole : ((LineTable.ofText text).lines.map Line.shape).flatMap
      (fun shape => shape.1 ++ shape.2.text) = text := by
    rw [List.flatMap_map]
    exact LineTable.flatMap_text_ofText text
  rw [hconcat, List.flatMap_append, List.flatMap_singleton, LineEnding.text,
    List.append_nil] at hwhole
  exact hwhole.symm

theorem newline_not_mem_of_mem_lines {text line : Text} (hline : line ∈ lines text) :
    '\n' ∉ line := by
  obtain ⟨shapes, last, rfl, hshapes, hlast⟩ := exists_shapes text
  have hmem : line ∈ shapes.map Prod.fst ++ [last] := by
    rw [lines_concat hshapes hlast] at hline
    split at hline
    · exact List.mem_append_left _ hline
    · exact hline
  rcases List.mem_append.1 hmem with hfront | hback
  · obtain ⟨shape, hshape, rfl⟩ := List.mem_map.1 hfront
    exact (hshapes shape hshape).1
  · rw [List.mem_singleton.1 hback]
    exact hlast

theorem endsLine_iff {shapes : List (Text × LineEnding)} {last : Text}
    (hshapes : ∀ shape ∈ shapes, LineTable.IsEnded shape) (hlast : '\n' ∉ last) :
    EndsLine (shapes.flatMap (fun shape => shape.1 ++ shape.2.text) ++ last) ↔ last = [] := by
  constructor
  · intro hends
    cases hclosing : last.getLast? with
    | none => exact List.getLast?_eq_none_iff.1 hclosing
    | some c =>
        have hc : c = '\n' := by
          apply hends
          rw [List.getLast?_append, hclosing]
          rfl
        exact absurd (hc ▸ List.mem_of_getLast? hclosing) hlast
  · rintro rfl
    rw [List.append_nil]
    induction shapes with
    | nil => exact nofun
    | cons shape rest ih =>
        rw [List.forall_mem_cons] at hshapes
        obtain ⟨⟨-, hending, -⟩, hrest⟩ := hshapes
        intro last hmem
        rw [List.flatMap_cons, List.getLast?_append, Option.mem_def, Option.or_eq_some_iff] at hmem
        rcases hmem with hmem | ⟨-, hmem⟩
        · exact ih hrest last hmem
        · rw [List.getLast?_append] at hmem
          cases hshape : shape.2 with
          | none => exact absurd hshape hending
          | newline => simpa [hshape, LineEnding.text, eq_comm] using hmem
          | carriageReturnNewline => simpa [hshape, LineEnding.text, eq_comm] using hmem

/-- Behind the end of a line the lines of a text are read as on their own. -/
theorem lines_append {front : Text} (hends : front.EndsLine) (back : Text) :
    lines (front ++ back) = lines front ++ lines back := by
  obtain ⟨shapes, unended, rfl, hshapes, hunended⟩ := exists_shapes front
  obtain ⟨others, last, rfl, hothers, hlast⟩ := exists_shapes back
  obtain rfl : unended = [] := (endsLine_iff hshapes hunended).1 hends
  have hall : ∀ shape ∈ shapes ++ others, LineTable.IsEnded shape :=
    List.forall_mem_append.2 ⟨hshapes, hothers⟩
  rw [List.append_nil, lines_of_isEnded hshapes, lines_concat hothers hlast, ← List.append_assoc,
    ← List.flatMap_append, lines_concat hall hlast, List.map_append]
  split
  · rfl
  · rw [List.append_assoc]

/-- Lines that are not empty come back when line feeds stand between them. -/
theorem lines_join {contents : List Text}
    (hcontents : ∀ content ∈ contents,
      content ≠ [] ∧ '\n' ∉ content ∧ content.getLast? ≠ some '\r') :
    lines (join ['\n'] contents) = contents := by
  induction contents with
  | nil => rfl
  | cons content others ih =>
      rw [List.forall_mem_cons] at hcontents
      obtain ⟨⟨hne, hnewline, hreturn⟩, hothers⟩ := hcontents
      by_cases hnil : others = []
      · subst hnil
        exact (lines_of_newline_not_mem hnewline).trans (if_neg hne)
      · have hends : EndsLine (content ++ ['\n']) := by
          intro last hlast
          rw [List.getLast?_concat] at hlast
          exact (Option.some.inj hlast).symm
        have hline : lines (content ++ ['\n']) = [content] := by
          have hlines := lines_of_newlines (List.forall_mem_singleton.2 ⟨hnewline, hreturn⟩)
          rwa [List.flatMap_singleton] at hlines
        rw [join_cons hnil, lines_append hends, hline, ih hothers, List.singleton_append]

end Text

end HclEdit
