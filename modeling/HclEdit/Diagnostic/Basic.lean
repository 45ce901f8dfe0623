import HclEdit.Problem.Reader

/-!
Problems placed in the buffer that was checked: each covers one whole line of it.
-/

namespace HclEdit

structure Diagnostic where
  line : Nat
  span : Span
  severity : Severity
  summary : Text
  message : Text
deriving DecidableEq

namespace Diagnostic

/-- The reported line, moved into the buffer when it lies outside. -/
def ofProblem (lines : LineTable) (problem : Problem) : Diagnostic :=
  let line := min (max problem.line 1) lines.count
  ⟨line, lines.clampedSpan line, problem.severity, problem.summary, problem.message⟩

def ofOutput (output buffer : Text) : List Diagnostic :=
  let lines := LineTable.ofText buffer
  (ProblemReader.problems output).map (ofProblem lines)

end Diagnostic

end HclEdit
