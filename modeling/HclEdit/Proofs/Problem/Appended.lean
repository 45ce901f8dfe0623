import HclEdit.Proofs.Lines.Shape
import HclEdit.Proofs.Problem.Printed

/-!
# One output after another

Outputs that are put behind one another are read like each of them on its own when the second one
begins with a header and the first one has ended its last line. A last line that is still open takes
in the header, and with it the problem.
-/

namespace HclEdit

namespace ProblemReader

/-! ### Behind the end of a line -/

def StartsWithHeader (output : Text) : Prop :=
  ∃ line ∈ (lines output).head?, isHeader line = true

theorem beforeHeader_append_of_nil {rest : List Text} (hrest : beforeHeader rest = [])
    (front : List Text) : beforeHeader (front ++ rest) = beforeHeader front := by
  induction front with
  | nil => exact hrest
  | cons line others ih =>
      rw [List.cons_append]
      cases hline : isHeader line with
      | true => rw [beforeHeader_cons_of_isHeader hline, beforeHeader_cons_of_isHeader hline]
      | false =>
          rw [beforeHeader_cons_of_not_isHeader hline, beforeHeader_cons_of_not_isHeader hline, ih]

theorem segments_append_of_nil {rest : List Text} (hrest : beforeHeader rest = [])
    (front : List Text) : segments (front ++ rest) = segments front ++ segments rest := by
  induction front with
  | nil => rfl
  | cons line others ih =>
      rw [List.cons_append, segments, segments]
      cases header? line with
      | none => exact ih
      | some header =>
          dsimp only
          rw [beforeHeader_append_of_nil hrest, ih, List.cons_append]

/-- **Behind the end of a line** an output that starts with a header is read as on its own. -/
theorem problems_append {front back : Text} (hends : front.EndsLine)
    (hback : StartsWithHeader back) :
    problems (front ++ back) = problems front ++ problems back := by
  obtain ⟨header, hhead, hheader⟩ := hback
  obtain ⟨rest, hlines⟩ := List.head?_eq_some_iff.1 hhead
  have hnone : beforeHeader (lines back) = [] := by
    rw [hlines, beforeHeader_cons_of_isHeader hheader]
  have happend : lines (front ++ back) = lines front ++ lines back := by
    rw [lines, Text.lines_append hends, List.map_append]
    rfl
  simp only [problems, readAll_fst, reported]
  rw [happend, segments_append_of_nil hnone, List.filterMap_append]

/-! ### Behind an open line -/

theorem header?_eq_some {line : Text} {header : Header} (hheader : header? line = some header) :
    ∃ rest, line = header.severity.label ++ rest ∧ header.summary = rest.trim := by
  obtain ⟨severity, -, hseverity⟩ := List.exists_of_findSome?_eq_some hheader
  split at hseverity
  · next hlabel =>
      obtain rfl := Option.some.inj hseverity
      obtain ⟨rest, rfl⟩ := List.isPrefixOf_iff_prefix.1 hlabel
      exact ⟨rest, rfl, by rw [List.drop_left]⟩
  · exact absurd hseverity nofun

theorem exists_header_of_mem_segments {lines : List Text} {segment : Segment}
    (hsegment : segment ∈ segments lines) : ∃ line ∈ lines, header? line = some segment.header := by
  fun_induction segments lines with
  | case1 => exact absurd hsegment List.not_mem_nil
  | case2 line rest header hheader ih =>
      rcases List.mem_cons.1 hsegment with rfl | hmem
      · exact ⟨line, List.mem_cons_self, hheader⟩
      · obtain ⟨other, hother, hfound⟩ := ih hmem
        exact ⟨other, List.mem_cons_of_mem _ hother, hfound⟩
  | case3 line rest _ ih =>
      obtain ⟨other, hother, hfound⟩ := ih hsegment
      exact ⟨other, List.mem_cons_of_mem _ hother, hfound⟩

theorem exists_header_of_mem_problems {output : Text} {problem : Problem}
    (hproblem : problem ∈ problems output) :
    ∃ line ∈ output.lines, header? line.unframed = some ⟨problem.severity, problem.summary⟩ := by
  rw [problems, readAll_fst] at hproblem
  obtain ⟨segment, hsegment, hsome⟩ := List.mem_filterMap.1 hproblem
  rw [Segment.problem?_eq, Option.map_eq_some_iff] at hsome
  obtain ⟨number, -, rfl⟩ := hsome
  obtain ⟨line, hline, hheader⟩ := exists_header_of_mem_segments hsegment
  obtain ⟨framed, hframed, rfl⟩ := List.mem_map.1 hline
  exact ⟨framed, hframed, hheader⟩

theorem length_unframed_le (line : Text) : line.unframed.length ≤ line.length := by
  unfold Text.unframed
  split <;> simp +arith

theorem length_summary_le {line : Text} {header : Header}
    (hheader : header? line.unframed = some header) : header.summary.length ≤ line.length := by
  obtain ⟨rest, hline, hsummary⟩ := header?_eq_some hheader
  calc header.summary.length
      = rest.trim.length := by rw [hsummary]
    _ ≤ rest.length := Text.length_trim_le rest
    _ ≤ line.unframed.length := by simp [hline]
    _ ≤ line.length := length_unframed_le line

theorem unframed_append {front : Text} (hfront : front ≠ []) (rest : Text) :
    (front ++ '│' :: rest).unframed = [] ∨ '│' ∈ (front ++ '│' :: rest).unframed := by
  obtain ⟨c, others, rfl⟩ := List.exists_cons_of_ne_nil hfront
  unfold Text.unframed
  split
  · exact Or.inl rfl
  · exact Or.inl rfl
  · next kept heq =>
      obtain ⟨-, heq⟩ := List.cons.inj heq
      have hmem : '│' ∈ ' ' :: kept := heq ▸ by simp
      exact Or.inr ((List.mem_cons.1 hmem).resolve_left (by decide))
  · next kept _ heq =>
      obtain ⟨-, rfl⟩ := List.cons.inj heq
      exact Or.inr (by simp)
  · exact Or.inr (by simp)

/-- The border of a line that is put behind an open one is kept. -/
theorem frame_mem_summary {front rest : Text} {header : Header} (hfront : front ≠ [])
    (hheader : header? (front ++ '│' :: rest).unframed = some header) :
    '│' ∈ header.summary := by
  rcases unframed_append hfront rest with hnil | hmem
  · rw [hnil] at hheader
    exact absurd hheader nofun
  · obtain ⟨summary, hline, hsummary⟩ := header?_eq_some hheader
    rw [hline, List.mem_append] at hmem
    have hlabel : '│' ∉ header.severity.label := by
      cases header.severity <;> decide
    rw [hsummary]
    exact Text.mem_trim (by decide) (hmem.resolve_left hlabel)

/-- The first line of an error in a box. -/
def boxedHeader (summary : Text) : Text :=
  '│' :: ' ' :: (Severity.error.label ++ summary)

/-- An error whose box is cut short. -/
def boxedError (summary : Text) : Text :=
  boxedHeader summary ++ '\n' :: "on b line 1:\n".toList

section BoxedError

variable {summary : Text} (htrimmed : summary.IsTrimmed) (hnewline : '\n' ∉ summary)
include htrimmed hnewline

theorem isEnded_boxedHeader {front : Text} (hfront : '\n' ∉ front) :
    LineTable.IsEnded (front ++ boxedHeader summary, .newline) := by
  have hplain := PrintedProblem.isPlainLine_header .error htrimmed hnewline
  have hne : Severity.error.label ++ summary ≠ [] := nofun
  refine ⟨?_, nofun, fun _ => ?_⟩
  · simp [boxedHeader, hfront, hplain.newline]
  · have hlast : (front ++ boxedHeader summary).getLast? =
        (Severity.error.label ++ summary).getLast? := by
      rw [boxedHeader, List.getLast?_append, List.getLast?_cons_cons,
        List.getLast?_cons_of_ne_nil hne, List.getLast?_eq_some_getLast hne, Option.some_or]
    rw [hlast]
    exact hplain.getLast?_ne

theorem lines_append_boxedError {shapes : List (Text × LineEnding)} {last : Text}
    (hshapes : ∀ shape ∈ shapes, LineTable.IsEnded shape) (hlast : '\n' ∉ last) :
    Text.lines (shapes.flatMap (fun shape => shape.1 ++ shape.2.text) ++ last ++
        boxedError summary) =
      shapes.map Prod.fst ++ [last ++ boxedHeader summary, "on b line 1:".toList] := by
  have hlocation : LineTable.IsEnded ("on b line 1:".toList, .newline) := by
    refine ⟨by decide, nofun, fun _ => by decide⟩
  have hall : ∀ shape ∈ shapes ++
      [(last ++ boxedHeader summary, .newline), ("on b line 1:".toList, .newline)],
      LineTable.IsEnded shape := by
    simp only [List.forall_mem_append, List.forall_mem_cons]
    exact ⟨hshapes, isEnded_boxedHeader htrimmed hnewline hlast, hlocation, nofun⟩
  have hlines := Text.lines_of_isEnded hall
  rw [List.map_append] at hlines
  refine (congrArg Text.lines ?_).trans hlines
  simp [boxedError, LineEnding.text]

theorem lines_boxedError :
    lines (boxedError summary) = [Severity.error.label ++ summary, "on b line 1:".toList] :=
  congrArg (List.map Text.unframed) (lines_append_boxedError htrimmed hnewline
    (List.forall_mem_nil _) List.not_mem_nil)

theorem startsWithHeader_boxedError : StartsWithHeader (boxedError summary) := by
  refine ⟨Severity.error.label ++ summary, ?_, ?_⟩
  · rw [lines_boxedError htrimmed hnewline]
    rfl
  · rw [isHeader, header?_label]
    rfl

theorem problems_boxedError :
    problems (boxedError summary) = [⟨1, .error, summary, summary⟩] := by
  have hlocation : isHeader "on b line 1:".toList = false := by decide
  have hsegments : segments (lines (boxedError summary)) =
      [⟨⟨.error, summary⟩, ["on b line 1:".toList]⟩] := by
    rw [lines_boxedError htrimmed hnewline, segments, header?_label, htrimmed]
    dsimp only
    rw [beforeHeader_cons_of_not_isHeader hlocation, segments_cons_of_not_isHeader hlocation]
    rfl
  rw [problems, readAll_fst, reported, hsegments]
  rfl

theorem summary_ne_of_mem_problems {front : Text} (hopen : ¬ front.EndsLine)
    (hframe : '│' ∉ summary) (hlength : front.length < summary.length) {problem : Problem}
    (hproblem : problem ∈ problems (front ++ boxedError summary)) : problem.summary ≠ summary := by
  obtain ⟨shapes, last, rfl, hshapes, hlast⟩ := Text.exists_shapes front
  rw [Text.endsLine_iff hshapes hlast] at hopen
  obtain ⟨line, hline, hheader⟩ := exists_header_of_mem_problems hproblem
  rw [lines_append_boxedError htrimmed hnewline hshapes hlast, List.mem_append, List.mem_cons,
    List.mem_singleton] at hline
  rintro rfl
  rcases hline with hline | rfl | rfl
  · obtain ⟨shape, hshape, rfl⟩ := List.mem_map.1 hline
    have hsummary : problem.summary.length ≤ shape.1.length := length_summary_le hheader
    have hsublist := sublist_flatMap_of_mem
      (fun shape : Text × LineEnding => shape.1 ++ shape.2.text) hshape
    have hwhole := hsublist.length_le
    rw [List.length_append] at hwhole hlength
    omega
  · exact hframe (frame_mem_summary hopen hheader)
  · have hnone : header? (Text.unframed "on b line 1:".toList) = none := by decide
    rw [hnone] at hheader
    exact absurd hheader nofun

end BoxedError

theorem exists_longer_summary (front : Text) :
    ∃ summary : Text, summary.IsTrimmed ∧ '\n' ∉ summary ∧ '│' ∉ summary ∧
      front.length < summary.length := by
  have hmem : ∀ c ∈ List.replicate (front.length + 1) 'a', c = 'a' :=
    fun _ => List.eq_of_mem_replicate
  refine ⟨List.replicate (front.length + 1) 'a', ?_, ?_, ?_, by simp⟩
  · apply Text.isTrimmed_of_not_isBlank
    intro c hc
    rw [hmem c hc]
    decide
  · exact fun hc => absurd (hmem _ hc) (by decide)
  · exact fun hc => absurd (hmem _ hc) (by decide)

/-- **Behind an open line** some problem is lost. -/
theorem exists_lost_problem {front : Text} (hopen : ¬ front.EndsLine) :
    ∃ back problem, StartsWithHeader back ∧ problem ∈ problems back ∧
      ∀ other ∈ problems (front ++ back), other.summary ≠ problem.summary := by
  obtain ⟨summary, htrimmed, hnewline, hframe, hlength⟩ := exists_longer_summary front
  refine ⟨boxedError summary, ⟨1, .error, summary, summary⟩,
    startsWithHeader_boxedError htrimmed hnewline, ?_, fun other hother =>
      summary_ne_of_mem_problems htrimmed hnewline hopen hframe hlength hother⟩
  rw [problems_boxedError htrimmed hnewline]
  exact List.mem_cons_self

end ProblemReader

end HclEdit
