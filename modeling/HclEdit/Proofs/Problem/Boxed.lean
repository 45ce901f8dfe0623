import HclEdit.Proofs.Problem.Printed
import Mathlib.Data.List.Basic

/-!
# Boxes do not matter

A checker may draw a box around what it prints: a border in front of every line, and rules above and
below. Once the frame is taken off, the rules are blank lines at the end of what is told about one
problem, or before the first. Blank lines in these places say nothing, so the problems read are the
same as without the box, and it does not matter how the lines end.
-/

namespace HclEdit

/-- A line of the frame that holds nothing. -/
def Text.IsRule (line : Text) : Prop :=
  line.head? = some '╷' ∨ line.head? = some '╵'

def Text.bordered : Text → Text
  | [] => ['│']
  | line => '│' :: ' ' :: line

/-- A text that consists of some lines with their endings; the last line may lack one. -/
def Text.Spells (text : Text) (contents : List Text) : Prop :=
  ∃ shapes : List (Text × LineEnding), shapes.map Prod.fst = contents ∧
    text = shapes.flatMap (fun shape => shape.1 ++ shape.2.text) ∧
    (∀ shape ∈ shapes.dropLast, shape.2 ≠ .none) ∧
    ∀ shape ∈ shapes, '\n' ∉ shape.1 ∧ (shape.2 = .newline → shape.1.getLast? ≠ some '\r')

namespace ProblemReader

/-! ### Blank lines at the end of a segment -/

theorem Location.digits?_of_isBlankText {line : Text} (hblank : Text.isBlankText line = true) :
    Location.digits? line = none := by
  rw [Location.digits?, Text.isBlankText_iff.1 hblank]

namespace Segment

variable {blanks : List Text} (hblanks : ∀ line ∈ blanks, Text.isBlankText line = true)

include hblanks in
theorem findSome?_digits?_append (lines : List Text) :
    (lines ++ blanks).findSome? Location.digits? = lines.findSome? Location.digits? := by
  have hnone : blanks.findSome? Location.digits? = none :=
    List.findSome?_eq_none_iff.2 fun line hline =>
      Location.digits?_of_isBlankText (hblanks line hline)
  rw [List.findSome?_append, hnone, Option.or_none]

theorem afterLocation_append {lines : List Text}
    (hdigits : (lines.findSome? Location.digits?).isSome = true) :
    afterLocation (lines ++ blanks) = afterLocation lines ++ blanks := by
  induction lines with
  | nil => exact absurd hdigits Bool.false_ne_true
  | cons line rest ih =>
      rw [afterLocation, afterLocation, List.cons_append]
      cases hline : Location.digits? line with
      | some digits => simp [hline]
      | none =>
          rw [List.findSome?_cons, hline] at hdigits
          rw [List.dropWhile_cons_of_pos (by simp [hline]),
            List.dropWhile_cons_of_pos (by simp [hline])]
          exact ih hdigits

include hblanks in
theorem paragraph_append (lines : List Text) : paragraph (lines ++ blanks) = paragraph lines := by
  have hcontext : blanks.dropWhile isContext = [] :=
    List.dropWhile_eq_nil_iff.2 fun line hline => by simp [isContext, hblanks line hline]
  have hnone : blanks.takeWhile (! Text.isBlankText ·) = [] := by
    cases blanks with
    | nil => rfl
    | cons first others => simp [hblanks first List.mem_cons_self]
  unfold paragraph
  rw [List.dropWhile_append]
  split
  · next hempty => rw [hcontext, List.isEmpty_iff.1 hempty]
  · rw [List.takeWhile_append]
    split
    · next hlength =>
        rw [hnone, List.append_nil]
        exact ((List.takeWhile_prefix _).eq_of_length hlength).symm
    · rfl

include hblanks in
/-- Blank lines at the end of a segment do not change its problem. -/
theorem problem?_append (header : Header) (lines : List Text) :
    problem? ⟨header, lines ++ blanks⟩ = problem? ⟨header, lines⟩ := by
  rw [problem?_eq, problem?_eq, findSome?_digits?_append hblanks]
  cases hdigits : lines.findSome? Location.digits? with
  | none => rfl
  | some digits =>
      have hafter : afterLocation (lines ++ blanks) = afterLocation lines ++ blanks :=
        afterLocation_append (by rw [hdigits]; rfl)
      have hmessage : message ⟨header, lines ++ blanks⟩ = message ⟨header, lines⟩ := by
        rw [message, hafter, paragraph_append hblanks, message]
      rw [hmessage]

end Segment

/-! ### Lines with more space between them -/

/-- Some lines, and the same lines with blank ones before headers and at the end. -/
inductive Spaced : List Text → List Text → Prop
  | nil : Spaced [] []
  | line (line : Text) {lines spaced : List Text} (hspaced : Spaced lines spaced) :
      Spaced (line :: lines) (line :: spaced)
  | blank {blank : Text} {lines spaced : List Text} (hblank : Text.isBlankText blank = true)
      (hhead : ∀ next ∈ lines.head?, isHeader next = true) (hspaced : Spaced lines spaced) :
      Spaced lines (blank :: spaced)

theorem not_isHeader_of_isBlankText {line : Text} (hblank : Text.isBlankText line = true) :
    isHeader line = false := by
  rw [isHeader_eq_false_iff]
  intro severity
  rw [← Bool.not_eq_true]
  intro hlabel
  obtain ⟨rest, rfl⟩ := List.isPrefixOf_iff_prefix.1 hlabel
  cases severity <;> exact absurd hblank Bool.false_ne_true

theorem Spaced.exists_beforeHeader {lines spaced : List Text} (hspaced : Spaced lines spaced) :
    ∃ blanks, beforeHeader spaced = beforeHeader lines ++ blanks ∧
      ∀ line ∈ blanks, Text.isBlankText line = true := by
  induction hspaced with
  | nil => exact ⟨[], rfl, nofun⟩
  | line line _ ih =>
      obtain ⟨blanks, hbefore, hblanks⟩ := ih
      cases hline : isHeader line with
      | true =>
          rw [beforeHeader_cons_of_isHeader hline, beforeHeader_cons_of_isHeader hline]
          exact ⟨[], rfl, nofun⟩
      | false =>
          rw [beforeHeader_cons_of_not_isHeader hline, beforeHeader_cons_of_not_isHeader hline,
            hbefore]
          exact ⟨blanks, rfl, hblanks⟩
  | @blank blank lines spaced hblank hhead _ ih =>
      obtain ⟨blanks, hbefore, hblanks⟩ := ih
      have hnone : beforeHeader lines = [] := by
        cases lines with
        | nil => rfl
        | cons next rest => exact beforeHeader_cons_of_isHeader (hhead next rfl) rest
      rw [beforeHeader_cons_of_not_isHeader (not_isHeader_of_isBlankText hblank), hbefore, hnone]
      exact ⟨blank :: blanks, rfl, List.forall_mem_cons.2 ⟨hblank, hblanks⟩⟩

/-- **Space does not matter** before headers and at the end. -/
theorem Spaced.reported_eq {lines spaced : List Text} (hspaced : Spaced lines spaced) :
    reported spaced = reported lines := by
  induction hspaced with
  | nil => rfl
  | line line hrest ih =>
      unfold reported at ih ⊢
      cases hheader : header? line with
      | none =>
          rw [segments, segments, hheader]
          exact ih
      | some header =>
          obtain ⟨blanks, hbefore, hblanks⟩ := hrest.exists_beforeHeader
          rw [segments, segments, hheader]
          dsimp only
          rw [List.filterMap_cons, List.filterMap_cons, hbefore,
            Segment.problem?_append hblanks, ih]
  | blank hblank _ _ ih =>
      rw [reported, segments_cons_of_not_isHeader (not_isHeader_of_isBlankText hblank)]
      exact ih

theorem spaced_append_nil (lines : List Text) : Spaced lines (lines ++ [[]]) := by
  induction lines with
  | nil => exact .blank rfl nofun .nil
  | cons line rest ih => exact .line line ih

/-! ### Lines in a box -/

/-- Some lines, and the same lines in a box from some place on: all lines have a border, and rules
stand before headers and at the end. -/
inductive BoxedOn : List Text → List Text → Prop
  | nil : BoxedOn [] []
  | line (line : Text) {lines boxed : List Text} (hboxed : BoxedOn lines boxed) :
      BoxedOn (line :: lines) (line.bordered :: boxed)
  | rule {rule : Text} {lines boxed : List Text} (hrule : rule.IsRule)
      (hhead : ∀ next ∈ lines.head?, isHeader next = true) (hboxed : BoxedOn lines boxed) :
      BoxedOn lines (rule :: boxed)

/-- Some lines, and the same lines in a box, with rules at the start too. -/
def Boxed (lines boxed : List Text) : Prop :=
  ∃ rules below, boxed = rules ++ below ∧ (∀ rule ∈ rules, rule.IsRule) ∧ BoxedOn lines below

theorem unframed_of_isRule {rule : Text} (hrule : rule.IsRule) : rule.unframed = [] := by
  rcases hrule with hhead | hhead
  · obtain ⟨rest, rfl⟩ := List.head?_eq_some_iff.1 hhead
    rfl
  · obtain ⟨rest, rfl⟩ := List.head?_eq_some_iff.1 hhead
    rfl

theorem unframed_bordered (line : Text) : line.bordered.unframed = line := by
  cases line <;> rfl

theorem BoxedOn.spaced {lines boxed : List Text} (hboxed : BoxedOn lines boxed) :
    Spaced lines (boxed.map Text.unframed) := by
  induction hboxed with
  | nil => exact .nil
  | line line _ ih =>
      rw [List.map_cons, unframed_bordered]
      exact .line line ih
  | rule hrule hhead _ ih =>
      rw [List.map_cons, unframed_of_isRule hrule]
      exact .blank rfl hhead ih

theorem Boxed.reported_eq {lines boxed : List Text} (hboxed : Boxed lines boxed) :
    reported (boxed.map Text.unframed) = reported lines := by
  obtain ⟨rules, below, rfl, hrules, hbelow⟩ := hboxed
  have hheader : ∀ line ∈ rules.map Text.unframed, isHeader line = false := by
    intro line hline
    obtain ⟨rule, hrule, rfl⟩ := List.mem_map.1 hline
    rw [unframed_of_isRule (hrules rule hrule)]
    rfl
  calc reported ((rules ++ below).map Text.unframed)
      = reported (below.map Text.unframed) := by
        rw [reported, List.map_append, segments_append hheader, reported]
    _ = reported lines := hbelow.spaced.reported_eq

/-! ### The lines of a text -/

/-- Only an empty line without an ending goes unnoticed. -/
theorem lines_of_spells {text : Text} {contents : List Text} (hspells : text.Spells contents) :
    text.lines = contents ∨ text.lines ++ [[]] = contents := by
  obtain ⟨shapes, rfl, rfl, hended, hplain⟩ := hspells
  rcases List.eq_nil_or_concat' shapes with rfl | ⟨front, ⟨last, ending⟩, rfl⟩
  · exact Or.inl rfl
  · rw [List.dropLast_concat] at hended
    rw [List.forall_mem_append] at hplain
    obtain ⟨hfront, hlast⟩ := hplain
    obtain ⟨hnewline, hreturn⟩ := hlast _ List.mem_cons_self
    have hfront' : ∀ shape ∈ front, LineTable.IsEnded shape := fun shape hshape =>
      ⟨(hfront shape hshape).1, hended shape hshape, (hfront shape hshape).2⟩
    by_cases hending : ending = .none
    · subst hending
      rw [List.flatMap_append, List.flatMap_singleton, LineEnding.text, List.append_nil,
        Text.lines_concat hfront' hnewline, List.map_append, List.map_singleton]
      split
      · next hempty =>
          obtain rfl : last = [] := hempty
          exact Or.inr rfl
      · exact Or.inl rfl
    · refine Or.inl (Text.lines_of_isEnded ?_)
      rw [List.forall_mem_append]
      exact ⟨hfront', List.forall_mem_singleton.2 ⟨hnewline, hending, hreturn⟩⟩

/-- Lines that all have the same ending. -/
theorem spells_flatMap {contents : List Text} {ending : LineEnding} (hending : ending ≠ .none)
    (hcontents : ∀ content ∈ contents, '\n' ∉ content ∧ '\r' ∉ content) :
    Text.Spells (contents.flatMap (· ++ ending.text)) contents := by
  refine ⟨contents.map (·, ending), ?_, ?_, ?_, ?_⟩
  · rw [List.map_map]
    exact List.map_id _
  · rw [List.flatMap_map]
  · intro shape hshape
    obtain ⟨content, -, rfl⟩ := List.mem_map.1 (List.dropLast_subset _ hshape)
    exact hending
  · intro shape hshape
    obtain ⟨content, hcontent, rfl⟩ := List.mem_map.1 hshape
    obtain ⟨hnewline, hreturn⟩ := hcontents content hcontent
    exact ⟨hnewline, fun _ hlast => hreturn (List.mem_of_getLast? hlast)⟩

theorem problems_of_spells {text : Text} {contents : List Text} (hspells : text.Spells contents) :
    problems text = reported (contents.map Text.unframed) := by
  rw [problems, readAll_fst, lines]
  rcases lines_of_spells hspells with rfl | rfl
  · rfl
  · rw [List.map_append]
    exact (spaced_append_nil _).reported_eq.symm

/-- **Boxed and plain renderings are read as the same problems**, whichever line endings they have.
The lines may be any that do not begin as a frame does. -/
theorem problems_boxed {lines boxedLines : List Text} {plain boxed : Text}
    (hlines : ∀ line ∈ lines, line.head? ∉ [some '╷', some '│', some '╵'])
    (hboxed : Boxed lines boxedLines) (hspells : plain.Spells lines)
    (hspells' : boxed.Spells boxedLines) : problems boxed = problems plain := by
  have hunframed : lines.map Text.unframed = lines := by
    rw [List.map_congr_left fun line hline => Text.unframed_of_head? (hlines line hline)]
    exact List.map_id _
  rw [problems_of_spells hspells, problems_of_spells hspells', hboxed.reported_eq, hunframed]

/-- A note and a problem, without a box. -/
def plainLines : List Text :=
  ["note", "Error: a", "", "on x line 7:", "  7: y", "", "b"].map String.toList

def boxedLines : List Text :=
  ["╷", "│ note", "╵ ", "╷", "│ Error: a", "│", "│ on x line 7:", "│   7: y", "│", "│ b", "╵"].map
    String.toList

theorem boxed_boxedLines : Boxed plainLines boxedLines := by
  refine ⟨["╷".toList], boxedLines.tail, rfl, ?_, ?_⟩
  · exact List.forall_mem_singleton.2 (.inl (by decide +kernel))
  · have hlines : boxedLines.tail = Text.bordered "note".toList :: "╵ ".toList :: "╷".toList ::
        plainLines.tail.map Text.bordered ++ ["╵".toList] := by decide +kernel
    rw [hlines]
    refine .line _ (.rule (.inr (by decide +kernel)) (by decide +kernel) ?_)
    refine .rule (.inl (by decide +kernel)) (by decide +kernel) ?_
    iterate 6 refine .line _ ?_
    exact .rule (.inr (by decide +kernel)) nofun .nil

theorem problems_boxedLines :
    problems (boxedLines.flatMap (· ++ ['\r', '\n'])) =
        problems (plainLines.flatMap (· ++ ['\n'])) ∧
      problems (plainLines.flatMap (· ++ ['\n'])) = [⟨7, .error, ['a'], ['b']⟩] := by
  have hspells : Text.Spells (plainLines.flatMap (· ++ ['\n'])) plainLines :=
    @spells_flatMap _ .newline nofun (by decide +kernel)
  have hspells' : Text.Spells (boxedLines.flatMap (· ++ ['\r', '\n'])) boxedLines :=
    @spells_flatMap _ .carriageReturnNewline nofun (by decide +kernel)
  refine ⟨problems_boxed (by decide +kernel) boxed_boxedLines hspells hspells', ?_⟩
  decide +kernel

end ProblemReader

end HclEdit
