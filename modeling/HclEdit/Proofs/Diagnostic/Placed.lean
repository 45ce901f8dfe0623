import HclEdit.Diagnostic.Basic
import HclEdit.Proofs.Lines.Order
import HclEdit.Proofs.Lines.Partition
import HclEdit.Proofs.Problem.Segment

/-!
# Diagnostics stand on lines of the buffer

A checker may report any number for a line. It is moved into the buffer twice, once for the line of
the diagnostic and once for the span, and both times the same line comes out. So every diagnostic
covers a line that the buffer has, and a higher number never leads to an earlier line.
-/

namespace HclEdit

theorem Text.le_byteLength_of_isBoundary {text : Text} {offset : Nat}
    (hboundary : text.isBoundary offset) : offset ≤ byteLength text := by
  obtain ⟨⟨front, back⟩, hcut⟩ := Option.isSome_iff_exists.1 hboundary
  obtain ⟨rfl, rfl⟩ := cut?_eq_some_iff.1 hcut
  simp

namespace LineTable

/-! ### Numbers moved into the buffer -/

def clampedLine (table : LineTable) (oneBased : Nat) : Nat :=
  min (max oneBased 1) table.count

theorem clampedLine_sub_one (table : LineTable) (oneBased : Nat) :
    table.clampedLine oneBased - 1 = min (oneBased - 1) (table.count - 1) := by
  unfold clampedLine
  omega

theorem clampedLine_of_mem {table : LineTable} {oneBased : Nat} (hpos : 1 ≤ oneBased)
    (hle : oneBased ≤ table.count) : table.clampedLine oneBased = oneBased := by
  rw [clampedLine, Nat.max_eq_left hpos, Nat.min_eq_left hle]

theorem clampedLine_of_lt {table : LineTable} {oneBased : Nat} (hlt : table.count < oneBased) :
    table.clampedLine oneBased = table.count :=
  Nat.min_eq_right (Nat.le_trans (Nat.le_of_lt hlt) (Nat.le_max_left _ _))

/-- A number that has been moved into the buffer once stays where it is. -/
theorem clampedSpan_clampedLine (table : LineTable) (oneBased : Nat) :
    table.clampedSpan (table.clampedLine oneBased) = table.clampedSpan oneBased := by
  rw [clampedSpan, clampedSpan, clampedLine_sub_one, Nat.min_assoc, Nat.min_self]

variable {text : Text}

theorem clampedLine_pos (oneBased : Nat) : 1 ≤ (ofText text).clampedLine oneBased := by
  have hcount := count_ofText_pos text
  unfold clampedLine
  omega

theorem clampedLine_zero (text : Text) : (ofText text).clampedLine 0 = 1 :=
  Nat.min_eq_left (count_ofText_pos text)

theorem exists_line?_clampedLine (text : Text) (oneBased : Nat) :
    ∃ line, (ofText text).line? ((ofText text).clampedLine oneBased - 1) = some line ∧
      (ofText text).clampedSpan oneBased = line.span := by
  have hlt : min (oneBased - 1) ((ofText text).count - 1) < (ofText text).lines.length := by
    have hcount : 0 < (ofText text).lines.length := count_ofText_pos text
    unfold count
    omega
  have hline := List.getElem?_eq_getElem hlt
  refine ⟨_, by rw [clampedLine_sub_one]; exact hline, ?_⟩
  rw [clampedSpan, span?, line?, hline]
  rfl

theorem exists_split_of_line? {number : Nat} {line : Line}
    (hline : (ofText text).line? number = some line) :
    ∃ front back, (ofText text).lines = front ++ line :: back :=
  List.append_of_mem (List.mem_of_getElem? hline)

/-- A higher number never leads to an earlier line. -/
theorem start_clampedSpan_mono (text : Text) {oneBased other : Nat} (hle : oneBased ≤ other) :
    ((ofText text).clampedSpan oneBased).start ≤ ((ofText text).clampedSpan other).start := by
  obtain ⟨line, hline, hspan⟩ := exists_line?_clampedLine text oneBased
  obtain ⟨later, hlater, hlaterSpan⟩ := exists_line?_clampedLine text other
  rw [hspan, hlaterSpan]
  have hnumber : (ofText text).clampedLine oneBased - 1 ≤ (ofText text).clampedLine other - 1 := by
    rw [clampedLine_sub_one, clampedLine_sub_one]
    omega
  rcases Nat.eq_or_lt_of_le hnumber with heq | hlt
  · rw [heq, hlater] at hline
    rw [Option.some.inj hline]
  · calc line.start
        ≤ line.stop := Nat.le_add_right _ _
      _ ≤ later.start := stop_le_start hline hlater hlt

end LineTable

namespace ProblemReader

/-! ### Messages -/

theorem Segment.summary_eq_nil {segment : Segment} (hmessage : segment.message = []) :
    segment.header.summary = [] := by
  unfold message at hmessage
  split at hmessage
  · exact hmessage
  · next hparagraph => exact absurd hmessage (join_paragraph_ne_nil hparagraph)

/-- A problem without a message has no summary either, which would have taken its place. -/
theorem summary_eq_nil_of_mem_problems {output : Text} {problem : Problem}
    (hproblem : problem ∈ problems output) (hmessage : problem.message = []) :
    problem.summary = [] := by
  rw [problems, readAll_fst] at hproblem
  obtain ⟨segment, -, hsome⟩ := List.mem_filterMap.1 hproblem
  rw [Segment.problem?_eq, Option.map_eq_some_iff] at hsome
  obtain ⟨number, -, rfl⟩ := hsome
  exact Segment.summary_eq_nil hmessage

end ProblemReader

namespace Diagnostic

/-- A diagnostic that says of a line of a buffer what a problem says of the line it reports. -/
structure Places (buffer : Text) (problem : Problem) (diagnostic : Diagnostic) : Prop where
  severity_eq : diagnostic.severity = problem.severity
  summary_eq : diagnostic.summary = problem.summary
  message_eq : diagnostic.message = problem.message
  line_mem : 1 ≤ diagnostic.line ∧ diagnostic.line ≤ (LineTable.ofText buffer).count
  line_eq : 1 ≤ problem.line → problem.line ≤ (LineTable.ofText buffer).count →
    diagnostic.line = problem.line
  line_of_zero : problem.line = 0 → diagnostic.line = 1
  line_of_lt : (LineTable.ofText buffer).count < problem.line →
    diagnostic.line = (LineTable.ofText buffer).count
  span_eq : (LineTable.ofText buffer).span? (diagnostic.line - 1) = some diagnostic.span
  span_eq_clampedSpan : diagnostic.span = (LineTable.ofText buffer).clampedSpan problem.line
  slice_eq : buffer.slice? diagnostic.span.start diagnostic.span.stop =
    some ((LineTable.ofText buffer).content (diagnostic.line - 1))
  isLineSpan : buffer.IsLineSpan diagnostic.span
  stop_le : diagnostic.span.stop ≤ Text.byteLength buffer

theorem ofProblem_eq (lines : LineTable) (problem : Problem) :
    ofProblem lines problem = ⟨lines.clampedLine problem.line, lines.clampedSpan problem.line,
      problem.severity, problem.summary, problem.message⟩ := by
  rw [ofProblem, ← LineTable.clampedLine, LineTable.clampedSpan_clampedLine]

theorem places_ofProblem (buffer : Text) (problem : Problem) :
    Places buffer problem (ofProblem (LineTable.ofText buffer) problem) := by
  obtain ⟨line, hline, hspan⟩ := LineTable.exists_line?_clampedLine buffer problem.line
  obtain ⟨front, back, hsplit⟩ := LineTable.exists_split_of_line? hline
  have hlineSpan := LineTable.isLineSpan_of_split hsplit
  rw [ofProblem_eq]
  exact
    { severity_eq := rfl
      summary_eq := rfl
      message_eq := rfl
      line_mem := ⟨LineTable.clampedLine_pos _, Nat.min_le_right _ _⟩
      line_eq := LineTable.clampedLine_of_mem
      line_of_zero := fun hzero => by
        rw [hzero]
        exact LineTable.clampedLine_zero buffer
      line_of_lt := LineTable.clampedLine_of_lt
      span_eq := by
        rw [LineTable.span?, hline, hspan]
        rfl
      span_eq_clampedSpan := rfl
      slice_eq := by
        rw [LineTable.content, hline, hspan]
        exact LineTable.content_of_split hsplit
      isLineSpan := hspan ▸ hlineSpan
      stop_le := Text.le_byteLength_of_isBoundary (hspan ▸ hlineSpan.stop_boundary) }

/-- **Diagnostics stand on lines of the buffer.** Whatever the output and the buffer are, each
problem has one diagnostic, in the same order, which says the same of a line of the buffer and
covers just that line. Higher numbers do not start earlier, and a message is empty only when the
summary is. -/
theorem ofOutput_places (output buffer : Text) :
    List.Forall₂ (Places buffer) (ProblemReader.problems output) (ofOutput output buffer) ∧
      (∀ problem other : Problem, problem.line ≤ other.line →
        (ofProblem (LineTable.ofText buffer) problem).span.start ≤
          (ofProblem (LineTable.ofText buffer) other).span.start) ∧
      ∀ diagnostic ∈ ofOutput output buffer,
        diagnostic.message = [] → diagnostic.summary = [] := by
  refine ⟨?places, ?monotone, ?message⟩
  case places =>
    rw [ofOutput, List.forall₂_map_right_iff, List.forall₂_same]
    exact fun problem _ => places_ofProblem buffer problem
  case monotone =>
    intro problem other hle
    rw [ofProblem_eq, ofProblem_eq]
    exact LineTable.start_clampedSpan_mono buffer hle
  case message =>
    intro diagnostic hdiagnostic hmessage
    obtain ⟨problem, hproblem, rfl⟩ := List.mem_map.1 hdiagnostic
    exact ProblemReader.summary_eq_nil_of_mem_problems hproblem hmessage

/-- Problems before the first line, on a line, and behind the last one; the last has no texts. -/
def strayOutput : Text :=
  Text.join ['\n'] (["Error: a", "on b line 0:", "Warning: b", "on b line 2:", "", "c", "Error: ",
    "on b line 9:"].map String.toList)

def strayBuffer : Text :=
  ['a', '\r', '\n', 'é', '\n']

theorem ofOutput_places_stray :
    ofOutput strayOutput strayBuffer =
        [⟨1, ⟨0, 1⟩, .error, ['a'], ['a']⟩, ⟨2, ⟨3, 5⟩, .warning, ['b'], ['c']⟩,
          ⟨3, ⟨6, 6⟩, .error, [], []⟩] ∧
      Places strayBuffer ⟨0, .error, ['a'], ['a']⟩ ⟨1, ⟨0, 1⟩, .error, ['a'], ['a']⟩ ∧
      Places strayBuffer ⟨2, .warning, ['b'], ['c']⟩ ⟨2, ⟨3, 5⟩, .warning, ['b'], ['c']⟩ ∧
      Places strayBuffer ⟨9, .error, [], []⟩ ⟨3, ⟨6, 6⟩, .error, [], []⟩ := by
  have hproblems : ProblemReader.problems strayOutput =
      [⟨0, .error, ['a'], ['a']⟩, ⟨2, .warning, ['b'], ['c']⟩, ⟨9, .error, [], []⟩] := by
    decide +kernel
  have hdiagnostics : ofOutput strayOutput strayBuffer =
      [⟨1, ⟨0, 1⟩, .error, ['a'], ['a']⟩, ⟨2, ⟨3, 5⟩, .warning, ['b'], ['c']⟩,
        ⟨3, ⟨6, 6⟩, .error, [], []⟩] := by decide +kernel
  have hplaces := (ofOutput_places strayOutput strayBuffer).1
  rw [hproblems, hdiagnostics] at hplaces
  simp only [List.forall₂_cons] at hplaces
  obtain ⟨hfirst, hsecond, hthird, -⟩ := hplaces
  exact ⟨hdiagnostics, hfirst, hsecond, hthird⟩

end Diagnostic

end HclEdit
