import HclEdit.Proofs.Problem.Appended
import HclEdit.Proofs.Session.Invariant
import HclEdit.Proofs.Text.Utf8

/-!
# The two streams of a checker

A report is read from both streams of a checker, the error stream right behind the other one. It
holds what each of them tells on its own as long as the first one ends with a whole line. An open
line at its end can hide a problem that the error stream begins with.
-/

namespace HclEdit

namespace Session

/-- A run whose end is reported: it is pending, and its generation is the one tracked. -/
def IsCurrent (session : Session) (run : Nat) (checker : CheckerRun) : Prop :=
  session.IsPending run checker ∧ session.tracks checker.generation = true

theorem complete_of_isCurrent {session : Session} {run : Nat} {checker : CheckerRun}
    (hcurrent : session.IsCurrent run checker) (exit : CheckerExit) :
    (session.complete run exit).2 =
      some ⟨checker.generation, exit.code, Diagnostic.ofOutput exit.output checker.buffer⟩ := by
  obtain ⟨⟨hchecker, hwatched, hfinished⟩, htracks⟩ := hcurrent
  simp [complete, hchecker, hwatched, hfinished, htracks]

theorem ofOutput_append {front back : Text} (hends : front.EndsLine)
    (hback : ProblemReader.StartsWithHeader back) (buffer : Text) :
    Diagnostic.ofOutput (front ++ back) buffer =
      Diagnostic.ofOutput front buffer ++ Diagnostic.ofOutput back buffer := by
  simp only [Diagnostic.ofOutput, ProblemReader.problems_append hends hback, List.map_append]

theorem exists_ofOutput_append_ne {front : Text} (hopen : ¬ front.EndsLine) :
    ∃ back, ProblemReader.StartsWithHeader back ∧ ∀ buffer,
      Diagnostic.ofOutput (front ++ back) buffer ≠
        Diagnostic.ofOutput front buffer ++ Diagnostic.ofOutput back buffer := by
  obtain ⟨back, problem, hstart, hproblem, hlost⟩ := ProblemReader.exists_lost_problem hopen
  refine ⟨back, hstart, fun buffer heq => ?_⟩
  have hmem : Diagnostic.ofProblem (.ofText buffer) problem ∈
      Diagnostic.ofOutput (front ++ back) buffer := by
    rw [heq]
    exact List.mem_append_right _ (List.mem_map_of_mem hproblem)
  obtain ⟨other, hother, hsame⟩ := List.mem_map.1 hmem
  exact hlost other hother (congrArg Diagnostic.summary hsame)

/-- **A current run is reported with the problems of both streams**, whatever the error stream
holds behind a header at its start, exactly if the other stream does not end in an open line. -/
theorem reports_both_streams_iff {session : Session} {run : Nat} {checker : CheckerRun}
    (hcurrent : session.IsCurrent run checker) (stdout : Bytes) :
    (∀ stderr code, ProblemReader.StartsWithHeader (Text.decodeLossy stderr) →
      (session.complete run ⟨stdout, stderr, code⟩).2 =
        some ⟨checker.generation, code,
          Diagnostic.ofOutput (Text.decodeLossy stdout) checker.buffer ++
            Diagnostic.ofOutput (Text.decodeLossy stderr) checker.buffer⟩) ↔
      (Text.decodeLossy stdout).EndsLine := by
  constructor
  · intro hboth
    by_contra hopen
    obtain ⟨back, hstart, hne⟩ := exists_ofOutput_append_ne hopen
    have hback : Text.decodeLossy (Text.encode back) = back := Text.decodeLossy_encode back
    have hreport := hboth (Text.encode back) none (hback.symm ▸ hstart)
    rw [complete_of_isCurrent hcurrent, CheckerExit.output, hback] at hreport
    exact hne checker.buffer (congrArg Report.diagnostics (Option.some.inj hreport))
  · intro hends stderr code hstart
    rw [complete_of_isCurrent hcurrent, CheckerExit.output, ofOutput_append hends hstart]

/-- A session with a check of a buffer under way. -/
def checking (buffer : Text) : Session :=
  (new.start (.ok ⟨"/bin/sh".toList, []⟩) .piped buffer).1

theorem isCurrent_checking (buffer : Text) :
    (checking buffer).IsCurrent 0 ⟨1, buffer, true, false, false⟩ :=
  ⟨⟨rfl, rfl, rfl⟩, rfl⟩

def failing : Bytes :=
  Text.encode "Error: a\non b line 1:\n".toList

/-- A note in a line of its own does not matter. -/
theorem report_of_ended_note :
    ((checking "b =".toList).complete 0 ⟨Text.encode "note\n".toList, failing, some 1⟩).2 =
      some ⟨1, some 1, [⟨1, ⟨0, 3⟩, .error, ['a'], ['a']⟩]⟩ := by
  have hends : (Text.decodeLossy (Text.encode "note\n".toList)).EndsLine := by
    rw [Text.decodeLossy_encode]
    exact fun last hlast => (Option.some.inj hlast).symm
  have hstart : ProblemReader.StartsWithHeader (Text.decodeLossy failing) :=
    ⟨"Error: a".toList, by decide +kernel, by decide +kernel⟩
  rw [(reports_both_streams_iff (isCurrent_checking _) _).2 hends failing (some 1) hstart]
  decide +kernel

/-- An open note hides the error, which the error stream alone would tell. -/
theorem report_of_open_note :
    (checking "b =".toList).IsCurrent 0 ⟨1, "b =".toList, true, false, false⟩ ∧
      ProblemReader.StartsWithHeader (Text.decodeLossy failing) ∧
      ((checking "b =".toList).complete 0 ⟨Text.encode "note".toList, failing, some 1⟩).2 =
        some ⟨1, some 1, []⟩ ∧
      Diagnostic.ofOutput (Text.decodeLossy (Text.encode "note".toList)) "b =".toList ++
          Diagnostic.ofOutput (Text.decodeLossy failing) "b =".toList =
        [⟨1, ⟨0, 3⟩, .error, ['a'], ['a']⟩] := by
  refine ⟨isCurrent_checking _, ⟨"Error: a".toList, ?_, ?_⟩, ?_, ?_⟩ <;> decide +kernel

end Session

end HclEdit
