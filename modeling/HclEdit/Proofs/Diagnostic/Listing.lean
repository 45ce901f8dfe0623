import HclEdit.Diagnostic.Listing
import HclEdit.Proofs.Diagnostic.Placed
import HclEdit.Proofs.Problem.Appended
import HclEdit.Proofs.Text.Decimal

/-!
# One row for each diagnostic

A listing of diagnostics has a row for each of them. Whatever a checker has written, the lines of a
message are trimmed and not empty, so a message with several lines makes one row when spaces take
the place of its line feeds, and no row ends in a carriage return. With the path known, a row
determines what it shows.
-/

namespace HclEdit

namespace ProblemReader

/-! ### The lines of a message -/

/-- A line of a message. -/
structure IsFolded (line : Text) : Prop where
  nonempty : line ≠ []
  newline_not_mem : '\n' ∉ line
  trimmed : line.IsTrimmed

theorem IsFolded.getLast?_ne {line : Text} (hline : IsFolded line) :
    line.getLast? ≠ some '\r' := by
  intro hlast
  have hblank := hline.trimmed.isBlank_getLast hlast
  exact absurd hblank (by decide)

theorem mem_of_mem_paragraph {lines : List Text} {line : Text}
    (hline : line ∈ Segment.paragraph (Segment.afterLocation lines)) :
    line ∈ lines ∧ Text.isBlankText line = false := by
  constructor
  · have hafter :=
      (List.dropWhile_suffix isContext).subset ((List.takeWhile_sublist _).subset hline)
    exact (List.dropWhile_suffix _).subset (List.mem_of_mem_tail hafter)
  · have hkept := List.mem_takeWhile_imp hline
    rwa [Bool.not_eq_true'] at hkept

theorem isFolded_trim {line : Text} (hnewline : '\n' ∉ line)
    (hblank : Text.isBlankText line = false) : IsFolded line.trim where
  nonempty := by
    rw [Ne, Text.trim_eq_nil_iff, hblank]
    exact Bool.false_ne_true
  newline_not_mem := fun hmem => hnewline (Text.trim_subset line hmem)
  trimmed := Text.isTrimmed_trim line

/-- A message is a paragraph or the summary, and both are trimmed line by line. -/
theorem isFolded_of_mem_message {output : Text} {problem : Problem}
    (hproblem : problem ∈ problems output) : ∀ line ∈ problem.message.lines, IsFolded line := by
  rw [problems, readAll_fst] at hproblem
  obtain ⟨segment, hsegment, hsome⟩ := List.mem_filterMap.1 hproblem
  rw [Segment.problem?_eq, Option.map_eq_some_iff] at hsome
  obtain ⟨number, -, rfl⟩ := hsome
  intro line hline
  dsimp only at hline
  unfold Segment.message at hline
  split at hline
  · obtain ⟨headerLine, hheaderLine, hheader⟩ := exists_header_of_mem_segments hsegment
    obtain ⟨rest, rfl, hsummary⟩ := header?_eq_some hheader
    have hnewline : '\n' ∉ rest := fun hmem =>
      newline_not_mem_lines hheaderLine (List.mem_append_right _ hmem)
    rw [hsummary, Text.lines_of_newline_not_mem fun hmem => hnewline (Text.trim_subset rest hmem)]
      at hline
    split at hline
    · exact absurd hline List.not_mem_nil
    · next hne =>
        rw [List.mem_singleton.1 hline]
        refine isFolded_trim hnewline ?_
        rwa [Text.trim_eq_nil_iff, Bool.not_eq_true] at hne
  · have hparagraph :
        ∀ line ∈ (Segment.paragraph (Segment.afterLocation segment.body)).map Text.trim,
          IsFolded line := by
      intro line hline
      obtain ⟨written, hwritten, rfl⟩ := List.mem_map.1 hline
      obtain ⟨hmem, hblank⟩ := mem_of_mem_paragraph hwritten
      exact isFolded_trim (newline_not_mem_lines (mem_of_mem_body hsegment hmem)) hblank
    rw [Text.lines_join fun line hline => ⟨(hparagraph line hline).nonempty,
      (hparagraph line hline).newline_not_mem, (hparagraph line hline).getLast?_ne⟩] at hline
    exact hparagraph line hline

end ProblemReader

namespace Diagnostic

/-! ### Rows -/

/-- A row of a listing. -/
def row (path : Text) (line : Nat) (severity : Severity) (message : Text) : Text :=
  path ++ ':' :: (Text.decimal line ++ ':' :: ' ' :: (severity.name ++ ':' :: ' ' :: message))

/-- The text of a row reads as a finding of this severity. -/
def RowShows (path : Text) (severity : Severity) (text : Text) : Prop :=
  ∃ line message, text = row path line severity message

theorem listing_eq (path : Text) (diagnostic : Diagnostic) :
    listing path diagnostic = row path diagnostic.line diagnostic.severity
      (Text.join [' '] diagnostic.message.lines) ++ ['\n'] := by
  simp [listing, row]

theorem severity_eq_of_append {severity other : Severity} {rest more : Text}
    (happend : severity.name ++ ':' :: rest = other.name ++ ':' :: more) :
    severity = other ∧ rest = more := by
  have hseverity : severity = other := by
    cases severity <;> cases other <;> simp_all [Severity.name]
  subst hseverity
  exact ⟨rfl, (List.cons.inj (List.append_cancel_left happend)).2⟩

theorem takeWhile_decimal_append (line : Nat) (rest : Text) :
    (Text.decimal line ++ ':' :: rest).takeWhile Char.isDigit = Text.decimal line :=
  takeWhile_append_cons (fun _ => Text.isDigit_of_mem_decimal) rfl rest

/-- **A row determines what it shows.** -/
theorem row_inj {path : Text} {line other : Nat} {severity otherSeverity : Severity}
    {message otherMessage : Text}
    (hrow : row path line severity message = row path other otherSeverity otherMessage) :
    line = other ∧ severity = otherSeverity ∧ message = otherMessage := by
  have hbehind := (List.cons.inj (List.append_cancel_left hrow)).2
  have hdigits := congrArg (List.takeWhile Char.isDigit) hbehind
  rw [takeWhile_decimal_append, takeWhile_decimal_append] at hdigits
  obtain rfl := Text.decimal_injective hdigits
  have hname := List.append_cancel_left hbehind
  obtain ⟨hseverity, hmessage⟩ := severity_eq_of_append (List.cons.inj (List.cons.inj hname).2).2
  exact ⟨rfl, hseverity, (List.cons.inj hmessage).2⟩

theorem newline_not_mem_row {path message : Text} (hpath : '\n' ∉ path) (hmessage : '\n' ∉ message)
    (line : Nat) (severity : Severity) : '\n' ∉ row path line severity message := by
  have hdecimal : '\n' ∉ Text.decimal line := by
    intro hmem
    exact absurd (Text.isDigit_of_mem_decimal hmem) (by decide)
  have hname : '\n' ∉ severity.name := by cases severity <;> decide
  simp [row, hpath, hdecimal, hname, hmessage]

theorem getLast?_row_ne {message : Text} (hmessage : message.getLast? ≠ some '\r') (path : Text)
    (line : Nat) (severity : Severity) :
    (row path line severity message).getLast? ≠ some '\r' := by
  have hsplit : row path line severity message =
      (path ++ ':' :: (Text.decimal line ++ ':' :: ' ' :: (severity.name ++ [':', ' ']))) ++
        message := by simp [row]
  rw [hsplit, List.getLast?_append]
  cases hlast : message.getLast? with
  | none => simp [List.getLast?_cons]
  | some c =>
      rw [hlast] at hmessage
      exact hmessage

/-! ### The rows of an output -/

/-- The row for a problem in a buffer. -/
def rowOf (path buffer : Text) (problem : Problem) : Text :=
  row path ((LineTable.ofText buffer).clampedLine problem.line) problem.severity
    (Text.join [' '] problem.message.lines)

theorem listingOfAll_ofOutput (path output buffer : Text) :
    listingOfAll path (ofOutput output buffer) =
      ((ProblemReader.problems output).map (rowOf path buffer)).flatMap (· ++ ['\n']) := by
  rw [listingOfAll, ofOutput, List.flatMap_map, List.flatMap_map]
  apply List.flatMap_congr
  intro problem _
  rw [listing_eq, ofProblem_eq, rowOf]

theorem newline_not_mem_fold (message : Text) : '\n' ∉ Text.join [' '] message.lines := by
  intro hmem
  rcases Text.mem_of_mem_join hmem with hspace | ⟨line, hline, hnewline⟩
  · exact absurd (List.mem_singleton.1 hspace) (by decide)
  · exact Text.newline_not_mem_of_mem_lines hline hnewline

theorem getLast?_fold_ne {output : Text} {problem : Problem}
    (hproblem : problem ∈ ProblemReader.problems output) :
    (Text.join [' '] problem.message.lines).getLast? ≠ some '\r' := by
  have hfolded := ProblemReader.isFolded_of_mem_message hproblem
  rw [Text.getLast?_join fun line hline => (hfolded line hline).nonempty]
  intro hlast
  obtain ⟨line, hline, hreturn⟩ := Option.bind_eq_some_iff.1 hlast
  exact (hfolded line (List.mem_of_getLast? hline)).getLast?_ne hreturn

/-- **A listing has one line for each problem.** -/
theorem lines_listingOfAll {path : Text} (hpath : '\n' ∉ path) (output buffer : Text) :
    (listingOfAll path (ofOutput output buffer)).lines =
      (ProblemReader.problems output).map (rowOf path buffer) := by
  rw [listingOfAll_ofOutput]
  apply Text.lines_of_newlines
  intro text htext
  obtain ⟨problem, hproblem, rfl⟩ := List.mem_map.1 htext
  exact ⟨newline_not_mem_row hpath (newline_not_mem_fold _) _ _,
    getLast?_row_ne (getLast?_fold_ne hproblem) _ _ _⟩

theorem count_newline_listingOfAll {path : Text} (hpath : '\n' ∉ path) (output buffer : Text) :
    (listingOfAll path (ofOutput output buffer)).count '\n' =
      (ProblemReader.problems output).length := by
  rw [listingOfAll_ofOutput, List.flatMap_map]
  induction ProblemReader.problems output with
  | nil => rfl
  | cons problem rest ih =>
      have hrow : '\n' ∉ rowOf path buffer problem :=
        newline_not_mem_row hpath (newline_not_mem_fold _) _ _
      rw [List.flatMap_cons, List.count_append, ih, List.count_append, List.count_eq_zero.2 hrow,
        List.length_cons, List.count_singleton_self]
      exact Nat.add_comm _ _

theorem rowShows_rowOf_iff {path buffer : Text} {problem : Problem} {severity : Severity} :
    RowShows path severity (rowOf path buffer problem) ↔ problem.severity = severity := by
  constructor
  · rintro ⟨line, message, hrow⟩
    exact (row_inj hrow).2.1
  · rintro rfl
    exact ⟨_, _, rfl⟩

end Diagnostic

end HclEdit
