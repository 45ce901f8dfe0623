import HclEdit.Proofs.Lines.Shape
import HclEdit.Proofs.Problem.Location
import HclEdit.Proofs.Problem.Segment
import HclEdit.Proofs.Text.Decimal

/-!
# Printed problems are read back

A checker prints a problem as a header line, a location line, lines of the source and a message,
with blank lines between. Whatever the texts of the problem are, none of these lines can be taken
for another, so problems printed one after the other are read back one by one.
-/

namespace HclEdit

/-- A problem with what is printed around it. -/
structure PrintedProblem where
  severity : Severity
  summary : Text
  line : Nat
  scope : Option Text
  context : List Text
  message : List Text

namespace PrintedProblem

def locationTail (printed : PrintedProblem) : Text :=
  match printed.scope with
  | none => [':']
  | some scope => ',' :: ' ' :: (scope ++ [':'])

def location (printed : PrintedProblem) : Text :=
  "  on <stdin> line ".toList ++ Text.decimal printed.line ++ printed.locationTail

/-- The lines below the header line. -/
def body (printed : PrintedProblem) : List Text :=
  [] :: printed.location :: (printed.context ++ [] :: (printed.message ++ [[]]))

def lines (printed : PrintedProblem) : List Text :=
  (printed.severity.label ++ printed.summary) :: printed.body

/-- Problems printed one after the other. -/
def textOf (problems : List PrintedProblem) : Text :=
  (problems.flatMap lines).flatMap (· ++ ['\n'])

def problem (printed : PrintedProblem) : Problem where
  line := printed.line
  severity := printed.severity
  summary := printed.summary
  message :=
    match printed.message with
    | [] => printed.summary
    | message => Text.join ['\n'] message

structure IsMessageLine (line : Text) : Prop where
  ne_nil : line ≠ []
  trimmed : line.IsTrimmed
  newline : '\n' ∉ line
  label : ∀ severity : Severity, severity.label.isPrefixOf line = false
  frame : line.head? ∉ [some '╷', some '│', some '╵']

structure WellFormed (printed : PrintedProblem) : Prop where
  line_lt : printed.line < UInt64.size
  summary_trimmed : printed.summary.IsTrimmed
  summary_newline : '\n' ∉ printed.summary
  scope : ∀ scope ∈ printed.scope, '\n' ∉ scope ∧ '\r' ∉ scope
  context : ∀ line ∈ printed.context,
    (line.head? = some ' ' ∨ line.head? = some '\t') ∧ '\n' ∉ line ∧ '\r' ∉ line
  message : ∀ line ∈ printed.message, IsMessageLine line

end PrintedProblem

/-! ### Lines that come back as they are -/

theorem Text.unframed_of_head? {line : Text}
    (hline : line.head? ∉ [some '╷', some '│', some '╵']) : line.unframed = line := by
  unfold Text.unframed
  split
  · exact absurd (by simp) hline
  · exact absurd (by simp) hline
  · exact absurd (by simp) hline
  · exact absurd (by simp) hline
  · rfl

/-- A line that neither the cut into lines nor the frame around it changes. -/
structure Text.IsPlainLine (line : Text) : Prop where
  newline : '\n' ∉ line
  getLast?_ne : line.getLast? ≠ some '\r'
  unframed_eq : line.unframed = line

theorem ProblemReader.lines_of_isPlainLine {contents : List Text}
    (hcontents : ∀ content ∈ contents, content.IsPlainLine) :
    lines (contents.flatMap (· ++ ['\n'])) = contents := by
  rw [lines, Text.lines_of_newlines]
  · rw [List.map_congr_left fun content hcontent => (hcontents content hcontent).unframed_eq]
    exact List.map_id _
  · intro content hcontent
    exact ⟨(hcontents content hcontent).newline, (hcontents content hcontent).getLast?_ne⟩

namespace ProblemReader

theorem header?_label (severity : Severity) (summary : Text) :
    header? (severity.label ++ summary) = some ⟨severity, summary.trim⟩ := by
  cases severity <;> rfl

theorem isHeader_eq_false_iff {line : Text} :
    isHeader line = false ↔ ∀ severity : Severity, severity.label.isPrefixOf line = false := by
  unfold isHeader header?
  rw [Option.isSome_eq_false_iff, Option.isNone_iff_eq_none, List.findSome?_eq_none_iff]
  constructor
  · intro hnone severity
    have hseverity := hnone severity (by cases severity <;> decide)
    rw [← Bool.not_eq_true]
    intro hlabel
    rw [if_pos hlabel] at hseverity
    exact absurd hseverity nofun
  · intro hlabel severity _
    rw [hlabel severity, if_neg Bool.false_ne_true]

theorem not_isHeader_of_isContext {line : Text}
    (hline : line.head? = some ' ' ∨ line.head? = some '\t') : isHeader line = false := by
  rw [isHeader_eq_false_iff]
  intro severity
  rcases hline with hhead | hhead
  · obtain ⟨rest, rfl⟩ := List.head?_eq_some_iff.1 hhead
    cases severity <;> rfl
  · obtain ⟨rest, rfl⟩ := List.head?_eq_some_iff.1 hhead
    cases severity <;> rfl

end ProblemReader

namespace PrintedProblem

open ProblemReader

variable {printed : PrintedProblem}

theorem isTail_locationTail (printed : PrintedProblem) :
    Location.isTail printed.locationTail = true := by
  unfold locationTail
  split
  · exact Location.isTail_colon
  · exact Location.isTail_scope _

theorem location_eq (printed : PrintedProblem) :
    printed.location = ' ' :: ' ' :: 'o' :: 'n' :: ' ' :: (['<', 's', 't', 'd', 'i', 'n', '>'] ++
      Location.numbered (Text.decimal printed.line) printed.locationTail) := by
  unfold location
  simp [Location.numbered]

theorem head?_location (printed : PrintedProblem) : printed.location.head? = some ' ' := by
  rw [location_eq]
  rfl

/-- **The number of the line is read**, whatever the scope says. -/
theorem digits?_location (printed : PrintedProblem) :
    Location.digits? printed.location = some (Text.decimal printed.line) := by
  have hdigits := Location.digitsAt?_numbered (Text.decimal_ne_nil printed.line)
    (Text.isDecimalDigit_of_mem_decimal printed.line) printed.isTail_locationTail
  rw [location_eq]
  exact Location.digitsAfterSource?_append nofun (by decide) hdigits

theorem number?_decimal {n : Nat} (hn : n < UInt64.size) :
    Location.number? (Text.decimal n) = some n := by
  rw [Location.number?, Text.natural?_decimal, Option.filter_some, if_pos (decide_eq_true hn)]

/-! ### No line is taken for another -/

theorem isPlainLine_nil : Text.IsPlainLine [] :=
  ⟨nofun, nofun, rfl⟩

theorem isPlainLine_header (severity : Severity) {summary : Text} (htrimmed : summary.IsTrimmed)
    (hnewline : '\n' ∉ summary) : (severity.label ++ summary).IsPlainLine where
  newline := by
    rw [List.mem_append, not_or]
    exact ⟨by cases severity <;> decide, hnewline⟩
  getLast?_ne := by
    intro hlast
    rw [List.getLast?_append] at hlast
    cases hsummary : summary.getLast? with
    | none =>
        rw [hsummary] at hlast
        cases severity <;> exact absurd hlast (by decide)
    | some c =>
        rw [hsummary] at hlast
        obtain rfl := Option.some.inj hlast
        exact absurd (htrimmed.isBlank_getLast hsummary) (by decide)
  unframed_eq := by cases severity <;> rfl

theorem isPlainLine_context {line : Text} (hhead : line.head? = some ' ' ∨ line.head? = some '\t')
    (hnewline : '\n' ∉ line) (hreturn : '\r' ∉ line) : line.IsPlainLine where
  newline := hnewline
  getLast?_ne := fun hlast => hreturn (List.mem_of_getLast? hlast)
  unframed_eq := by
    apply Text.unframed_of_head?
    rcases hhead with hspace | htab
    · rw [hspace]
      decide
    · rw [htab]
      decide

/-- Beside the digits and the scope, a location line has no characters but those always printed. -/
theorem not_mem_location {c : Char} (hdigit : c.isDigit = false)
    (hc : c ∉ "  on <stdin> line ,:".toList) (hscope : ∀ scope ∈ printed.scope, c ∉ scope) :
    c ∉ printed.location := by
  have hdecimal : c ∉ Text.decimal printed.line := by
    intro hmem
    rw [Text.isDigit_of_mem_decimal hmem] at hdigit
    exact absurd hdigit nofun
  have htail : c ∉ printed.locationTail := by
    unfold locationTail
    split
    · simp_all
    · next scope heq =>
        have hnot := hscope scope heq
        simp_all
  unfold location
  simp_all

theorem isPlainLine_location (hscope : ∀ scope ∈ printed.scope, '\n' ∉ scope ∧ '\r' ∉ scope) :
    printed.location.IsPlainLine := by
  apply isPlainLine_context (.inl printed.head?_location)
  · exact not_mem_location (by decide) (by decide) fun scope hmem => (hscope scope hmem).1
  · exact not_mem_location (by decide) (by decide) fun scope hmem => (hscope scope hmem).2

theorem IsMessageLine.isPlainLine {line : Text} (hline : IsMessageLine line) :
    line.IsPlainLine where
  newline := hline.newline
  getLast?_ne := fun hlast => absurd (hline.trimmed.isBlank_getLast hlast) (by decide)
  unframed_eq := Text.unframed_of_head? hline.frame

theorem IsMessageLine.not_isHeader {line : Text} (hline : IsMessageLine line) :
    isHeader line = false :=
  isHeader_eq_false_iff.2 hline.label

theorem IsMessageLine.isBlank_head {line : Text} (hline : IsMessageLine line) :
    ∃ c rest, line = c :: rest ∧ Text.isBlank c = false := by
  obtain ⟨c, rest, rfl⟩ := List.exists_cons_of_ne_nil hline.ne_nil
  exact ⟨c, rest, rfl, hline.trimmed.isBlank_head rfl⟩

theorem IsMessageLine.not_isBlankText {line : Text} (hline : IsMessageLine line) :
    Text.isBlankText line = false := by
  obtain ⟨c, rest, rfl, hc⟩ := hline.isBlank_head
  simp [Text.isBlankText, hc]

theorem IsMessageLine.not_isContext {line : Text} (hline : IsMessageLine line) :
    isContext line = false := by
  have hblank := hline.not_isBlankText
  obtain ⟨c, rest, rfl, hc⟩ := hline.isBlank_head
  have hspace : c ≠ ' ' := by
    rintro rfl
    exact absurd hc (by decide)
  have htab : c ≠ '\t' := by
    rintro rfl
    exact absurd hc (by decide)
  simp [isContext, hblank, hspace, htab]

section WellFormed

variable (hprinted : printed.WellFormed)
include hprinted

theorem isPlainLine_of_mem_lines : ∀ line ∈ printed.lines, line.IsPlainLine := by
  intro line hline
  simp only [lines, body, List.mem_cons, List.mem_append, List.not_mem_nil, or_false] at hline
  rcases hline with rfl | rfl | rfl | hcontext | rfl | hmessage | rfl
  · exact isPlainLine_header printed.severity hprinted.summary_trimmed hprinted.summary_newline
  · exact isPlainLine_nil
  · exact isPlainLine_location hprinted.scope
  · obtain ⟨hhead, hnewline, hreturn⟩ := hprinted.context line hcontext
    exact isPlainLine_context hhead hnewline hreturn
  · exact isPlainLine_nil
  · exact (hprinted.message line hmessage).isPlainLine
  · exact isPlainLine_nil

theorem not_isHeader_of_mem_body : ∀ line ∈ printed.body, isHeader line = false := by
  intro line hline
  simp only [body, List.mem_cons, List.mem_append, List.not_mem_nil, or_false] at hline
  rcases hline with rfl | rfl | hcontext | rfl | hmessage | rfl
  · rfl
  · exact not_isHeader_of_isContext (.inl printed.head?_location)
  · exact not_isHeader_of_isContext (hprinted.context line hcontext).1
  · rfl
  · exact (hprinted.message line hmessage).not_isHeader
  · rfl

/-- The message is the first paragraph behind the context. -/
theorem paragraph_message :
    Segment.paragraph (printed.context ++ [] :: (printed.message ++ [[]])) = printed.message := by
  have hcontext : ∀ line ∈ printed.context ++ [[]], isContext line = true := by
    intro line hline
    rcases List.mem_append.1 hline with hmem | hmem
    · rcases (hprinted.context line hmem).1 with hhead | hhead <;> simp [isContext, hhead]
    · obtain rfl := List.mem_singleton.1 hmem
      rfl
  have hmessage : ∀ line ∈ printed.message, (! Text.isBlankText line) = true := by
    intro line hline
    rw [(hprinted.message line hline).not_isBlankText]
    rfl
  have hsplit : printed.context ++ [] :: (printed.message ++ [[]]) =
      (printed.context ++ [[]]) ++ (printed.message ++ [[]]) := by simp
  rw [Segment.paragraph, hsplit, List.dropWhile_append_of_pos hcontext]
  cases hlines : printed.message with
  | nil => rfl
  | cons first others =>
      have hfirst : first ∈ printed.message := hlines ▸ List.mem_cons_self
      have hkept : ¬ isContext first = true := by
        rw [(hprinted.message first hfirst).not_isContext]
        exact Bool.false_ne_true
      rw [hlines] at hmessage
      rw [List.cons_append, List.dropWhile_cons_of_neg hkept, ← List.cons_append,
        List.takeWhile_append_of_pos hmessage]
      exact List.append_nil _

theorem message_segment (header : Header) (hheader : header.summary = printed.summary) :
    Segment.message ⟨header, printed.body⟩ = printed.problem.message := by
  have hafter : Segment.afterLocation printed.body =
      printed.context ++ [] :: (printed.message ++ [[]]) := by
    rw [Segment.afterLocation, body, List.dropWhile_cons_of_pos rfl,
      List.dropWhile_cons_of_neg (by rw [digits?_location]; exact Bool.false_ne_true)]
    rfl
  have htrim : printed.message.map Text.trim = printed.message := by
    rw [List.map_congr_left fun line hline => (hprinted.message line hline).trimmed]
    exact List.map_id _
  unfold Segment.message problem
  dsimp only
  rw [hafter, paragraph_message hprinted, hheader]
  cases hmessage : printed.message with
  | nil => rfl
  | cons first others =>
      rw [hmessage] at htrim
      exact congrArg (Text.join ['\n']) htrim

/-- **One block** stands for the problem that it was printed for. -/
theorem problem?_segment :
    Segment.problem? ⟨⟨printed.severity, printed.summary⟩, printed.body⟩ =
      some printed.problem := by
  have hdigits : printed.body.findSome? Location.digits? = some (Text.decimal printed.line) := by
    rw [body, List.findSome?_cons_of_isNone rfl, List.findSome?_cons, digits?_location]
  rw [Segment.problem?_eq, hdigits, message_segment hprinted _ rfl, Option.bind_some,
    number?_decimal hprinted.line_lt]
  rfl

end WellFormed

theorem beforeHeader_flatMap_lines (problems : List PrintedProblem) :
    beforeHeader (problems.flatMap lines) = [] := by
  cases problems with
  | nil => rfl
  | cons printed others =>
      rw [List.flatMap_cons, lines, List.cons_append]
      apply beforeHeader_cons_of_isHeader
      rw [isHeader, header?_label]
      rfl

theorem reported_flatMap_lines {problems : List PrintedProblem}
    (hproblems : ∀ printed ∈ problems, printed.WellFormed) :
    reported (problems.flatMap lines) = problems.map problem := by
  induction problems with
  | nil => rfl
  | cons printed others ih =>
      rw [List.forall_mem_cons] at hproblems
      obtain ⟨hprinted, hothers⟩ := hproblems
      have hheader := header?_label printed.severity printed.summary
      rw [hprinted.summary_trimmed] at hheader
      have hsegments := segments_cons_append hheader (not_isHeader_of_mem_body hprinted)
        (beforeHeader_flatMap_lines others)
      rw [List.flatMap_cons, lines, List.cons_append, reported, hsegments, List.filterMap_cons,
        problem?_segment hprinted, List.map_cons, ← ih hothers]
      rfl

/-- **Printed problems are read back**, one by one and with nothing between them. One that is
printed without a message has its summary for a message. -/
theorem problems_textOf {problems : List PrintedProblem}
    (hproblems : ∀ printed ∈ problems, printed.WellFormed) :
    ProblemReader.problems (textOf problems) = problems.map problem := by
  have hplain : ∀ line ∈ problems.flatMap lines, line.IsPlainLine := by
    intro line hline
    obtain ⟨printed, hmem, hline⟩ := List.mem_flatMap.1 hline
    exact isPlainLine_of_mem_lines (hproblems printed hmem) line hline
  rw [ProblemReader.problems, readAll_fst, textOf, lines_of_isPlainLine hplain,
    reported_flatMap_lines hproblems]

/-- Each of its texts reads like a line of another kind. -/
def scopedWarning : PrintedProblem where
  severity := .warning
  summary := "on x line 9:".toList
  line := 7
  scope := some "in y line 5:".toList
  context := ["    7: a = 1".toList, "\tError: b".toList]
  message := ["Error:".toList, "on z line 3:".toList]

def bareError : PrintedProblem where
  severity := .error
  summary := "c".toList
  line := 18446744073709551615
  scope := none
  context := []
  message := []

theorem problems_scopedWarning :
    scopedWarning.WellFormed ∧ bareError.WellFormed ∧
      ProblemReader.problems (textOf [scopedWarning, bareError]) =
        [⟨7, .warning, "on x line 9:".toList, "Error:\non z line 3:".toList⟩,
          ⟨18446744073709551615, .error, ['c'], ['c']⟩] := by
  have hlabel : IsMessageLine "Error:".toList :=
    ⟨by decide, by decide, by decide, fun severity => by cases severity <;> decide, by decide⟩
  have hplace : IsMessageLine "on z line 3:".toList :=
    ⟨by decide, by decide, by decide, fun severity => by cases severity <;> decide, by decide⟩
  have hmessage : ∀ line ∈ scopedWarning.message, IsMessageLine line :=
    List.forall_mem_cons.2 ⟨hlabel, List.forall_mem_singleton.2 hplace⟩
  have hwarning : scopedWarning.WellFormed :=
    ⟨by decide, by decide, by decide, by decide, by decide, hmessage⟩
  have herror : bareError.WellFormed :=
    ⟨by decide, by decide, by decide, nofun, nofun, nofun⟩
  have hproblems : ∀ printed ∈ [scopedWarning, bareError], printed.WellFormed :=
    List.forall_mem_cons.2 ⟨hwarning, List.forall_mem_singleton.2 herror⟩
  exact ⟨hwarning, herror, problems_textOf hproblems⟩

end PrintedProblem

end HclEdit
