import HclEdit.Proofs.Cli.Discipline
import HclEdit.Proofs.Diagnostic.Listing

/-!
# One line for each finding

A check in plain form prints a line for each problem that is read from what the checker has written,
and nothing else. Whether the run fails is told by the printed lines alone.
-/

namespace HclEdit.Cli

/-- On these arguments a file is checked in plain form. The buffer is what the file holds, and the
output is what the checker has written about it, whatever code it ended with. -/
inductive ChecksPlainly (runner : Runner) (arguments : List Text) : Text → Text → Text → Prop where
  | exited {file buffer : Text} {config : Config} {command : CommandLine} {resolved : Executable}
      {exit : CheckerExit} (hasked : runner.asked arguments = .ok (.check file false))
      (hprepare : runner.Prepared arguments config)
      (hread : runner.readText file = .ok buffer)
      (hcommand : CommandLine.parse config.checkerCommand = .ok command)
      (hlocate : command.locate runner.findProgram = .ok resolved)
      (hexit : runner.execute resolved (Text.encode buffer) = .ok exit) :
      ChecksPlainly runner arguments file buffer
        (Text.decodeLossy exit.stdout ++ Text.decodeLossy exit.stderr)

theorem Stream.write_of_fits {stream : Stream} {text : Text}
    (hfits : stream.fits (Text.encode text) = true) :
    stream.write text = (stream.accepting text, none) := by
  simp [write, hfits, accepting]

section Findings

variable {runner : Runner} {arguments : List Text} {file buffer output : Text} {streams : Streams}

theorem ChecksPlainly.run (hchecks : ChecksPlainly runner arguments file buffer output)
    (hfits : streams.stdout.fits (Text.encode
      (Diagnostic.listingOfAll file (Diagnostic.ofOutput output buffer))) = true) :
    runner.run arguments streams =
      (checkStatus (Diagnostic.ofOutput output buffer),
        ⟨streams.stdout.accepting
          (Diagnostic.listingOfAll file (Diagnostic.ofOutput output buffer)), streams.stderr⟩) := by
  cases hchecks with
  | @exited config _ _ exit hasked hprepare hread hcommand hlocate hexit =>
      have hcheck : runner.check config file buffer = .ok (Diagnostic.ofOutput
          (Text.decodeLossy exit.stdout ++ Text.decodeLossy exit.stderr) buffer) :=
        (Runner.Checks.exited hcommand hlocate hexit rfl).check
      rw [Runner.asked] at hasked
      simp only [Runner.run, Runner.runWithLoader, hasked, hprepare.prepare, execute,
        Runner.readFile, hread, hcheck, bind, Except.bind, Bool.false_eq_true, if_false, emit,
        Stream.write_of_fits hfits]

theorem checkStatus_eq_failure_iff {diagnostics : List Diagnostic} :
    checkStatus diagnostics = .failure ↔
      ∃ diagnostic ∈ diagnostics, diagnostic.severity = .error := by
  simp [checkStatus]

/-- A check fails if and only if one of the rows for its problems shows an error. -/
theorem checkStatus_ofOutput_eq_failure_iff (path output buffer : Text) :
    checkStatus (Diagnostic.ofOutput output buffer) = .failure ↔
      ∃ text ∈ (ProblemReader.problems output).map (Diagnostic.rowOf path buffer),
        Diagnostic.RowShows path .error text := by
  rw [checkStatus_eq_failure_iff]
  constructor
  · rintro ⟨diagnostic, hmem, herror⟩
    obtain ⟨problem, hproblem, rfl⟩ := List.mem_map.1 hmem
    exact ⟨_, List.mem_map_of_mem hproblem, Diagnostic.rowShows_rowOf_iff.2 herror⟩
  · rintro ⟨text, htext, hshows⟩
    obtain ⟨problem, hproblem, rfl⟩ := List.mem_map.1 htext
    exact ⟨_, List.mem_map_of_mem hproblem, Diagnostic.rowShows_rowOf_iff.1 hshows⟩

/-- **A check in plain form prints one line for each finding.** As long as standard output accepts
them, the printed lines are the rows for the problems that are read from the checker's output, one
each and in the same order: path, line moved into the buffer, severity, and message with spaces
between its lines. Each printed line is ended by a line feed. The run fails if and only if a printed
line shows an error. -/
theorem plain_check_prints_findings (hchecks : ChecksPlainly runner arguments file buffer output)
    (hfile : '\n' ∉ file)
    (hfits : streams.stdout.fits (Text.encode
      (Diagnostic.listingOfAll file (Diagnostic.ofOutput output buffer))) = true) :
    ∃ text status,
      runner.run arguments streams =
        (status, ⟨streams.stdout.accepting text, streams.stderr⟩) ∧
      text.lines = (ProblemReader.problems output).map (fun problem =>
        Diagnostic.row file ((LineTable.ofText buffer).clampedLine problem.line) problem.severity
          (Text.join [' '] problem.message.lines)) ∧
      text = text.lines.flatMap (· ++ ['\n']) ∧
      text.count '\n' = (ProblemReader.problems output).length ∧
      (status = .failure ↔ ∃ line ∈ text.lines, Diagnostic.RowShows file .error line) := by
  have hlines := Diagnostic.lines_listingOfAll hfile output buffer
  have htext := Diagnostic.listingOfAll_ofOutput file output buffer
  refine ⟨_, _, hchecks.run hfits, hlines, ?ended,
    Diagnostic.count_newline_listingOfAll hfile output buffer, ?status⟩
  case ended => rw [hlines, htext]
  case status =>
    rw [hlines]
    exact checkStatus_ofOutput_eq_failure_iff file output buffer

end Findings

/-- What a checker that ends with zero has written: a message of two lines with blanks of other
kinds around and in them, and a header that nothing follows but a location. -/
def foldedExit : CheckerExit where
  stdout := Text.encode (Text.join ['\r', '\n'] (["Warning: w", "", "  on main.tf line 9:", "",
    "b\rc ", "\x0Bd", "", "Error: "].map String.toList))
  stderr := Text.encode "\n  on main.tf line 0:".toList
  code := some 0

def foldedHost : Host where
  files := ⟨[], [(["main.tf".toList], .file [97, 10, 98] false),
    (["check".toList], .file [] true)]⟩
  environment := []
  parser := fun _ _ => .error (.unparsable "parsing failed")
  execute := fun _ _ => .ok foldedExit

def foldedArguments : List Text :=
  ["terrain".toList, "--checker-command".toList, "./check".toList, "check".toList,
    "main.tf".toList]

/-- Standard output has room for what is printed and no more. -/
def foldedStreams : Streams :=
  ⟨⟨some 45, []⟩, .unlimited⟩

theorem plain_check_prints_folded :
    ChecksPlainly foldedHost.runner foldedArguments "main.tf".toList ['a', '\n', 'b']
        foldedExit.output ∧
      ∃ text status,
        foldedHost.runner.run foldedArguments foldedStreams =
          (status, ⟨foldedStreams.stdout.accepting text, .unlimited⟩) ∧
        text.lines = ["main.tf:2: warning: b\rc d".toList, "main.tf:1: error: ".toList] ∧
        text.count '\n' = 2 ∧ status = .failure := by
  have hprepare : foldedHost.runner.Prepared foldedArguments
      { Config.standard with checkerCommand := "./check".toList } := ⟨rfl, rfl, rfl⟩
  have hexit : foldedHost.runner.execute ⟨"/check".toList, []⟩ (Text.encode ['a', '\n', 'b']) =
      .ok foldedExit := rfl
  have hchecks : ChecksPlainly foldedHost.runner foldedArguments "main.tf".toList ['a', '\n', 'b']
      foldedExit.output := .exited rfl hprepare rfl rfl rfl hexit
  have hfits : foldedStreams.stdout.fits (Text.encode (Diagnostic.listingOfAll "main.tf".toList
      (Diagnostic.ofOutput foldedExit.output ['a', '\n', 'b']))) = true := by decide +kernel
  obtain ⟨text, status, hrun, hlines, -, hcount, hstatus⟩ :=
    plain_check_prints_findings hchecks (by decide) hfits
  have hproblems : ProblemReader.problems foldedExit.output =
      [⟨9, .warning, ['w'], "b\rc\nd".toList⟩, ⟨0, .error, [], []⟩] := by decide +kernel
  rw [hproblems] at hlines hcount
  have hrows : text.lines = ["main.tf:2: warning: b\rc d".toList, "main.tf:1: error: ".toList] :=
    hlines.trans (by decide +kernel)
  refine ⟨hchecks, text, status, hrun, hrows, hcount, hstatus.2 ?_⟩
  rw [hrows]
  exact ⟨_, List.mem_cons_of_mem _ List.mem_cons_self, 1, [], rfl⟩

end HclEdit.Cli
