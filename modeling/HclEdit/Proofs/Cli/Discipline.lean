import HclEdit.Cli.Run

/-!
# What a run writes

A run of the program comes to an answer or to an error. Which of them it is is told here by what the
run finds, not by the order in which it looks. The answer goes to standard output or the error to
standard error, and nothing else goes to either. Only a check that reports an error answers with a
failure.
-/

namespace HclEdit

theorem Session.check_new_piped (command : Executable) (exit : CheckerExit) (buffer : Text) :
    (Session.new.check (.ok command) .piped exit buffer).2 =
      .ok (some ⟨1, exit.code, Diagnostic.ofOutput exit.output buffer⟩) := by
  simp [check, start, complete, cancel, tracks, new]

namespace Cli

/-! ### Checking -/

/-- How the checker can fail to come about. -/
inductive Runner.CheckFails (runner : Runner) (config : Config) (buffer : Text) :
    StartError → Prop where
  | blank {error : StartError} (hcommand : CommandLine.parse config.checkerCommand = .error error) :
      CheckFails runner config buffer error
  | missing {command : CommandLine} {error : StartError}
      (hcommand : CommandLine.parse config.checkerCommand = .ok command)
      (hlocate : command.locate runner.findProgram = .error error) :
      CheckFails runner config buffer error
  | unspawned {command : CommandLine} {resolved : Executable} {reason : Text}
      (hcommand : CommandLine.parse config.checkerCommand = .ok command)
      (hlocate : command.locate runner.findProgram = .ok resolved)
      (hspawn : runner.execute resolved (Text.encode buffer) = .error reason) :
      CheckFails runner config buffer (.launchFailed resolved.path reason)

/-- A check has run, and these are the diagnostics that it reports. -/
inductive Runner.Checks (runner : Runner) (config : Config) (buffer : Text) :
    List Diagnostic → Prop where
  | exited {command : CommandLine} {resolved : Executable} {exit : CheckerExit}
      {diagnostics : List Diagnostic}
      (hcommand : CommandLine.parse config.checkerCommand = .ok command)
      (hlocate : command.locate runner.findProgram = .ok resolved)
      (hexit : runner.execute resolved (Text.encode buffer) = .ok exit)
      (houtput : Diagnostic.ofOutput
        (Text.decodeLossy exit.stdout ++ Text.decodeLossy exit.stderr) buffer = diagnostics) :
      Checks runner config buffer diagnostics

/-- All that a check makes of the checker is what it has written, or why there is none. -/
theorem Runner.check_eq (runner : Runner) (config : Config) (path buffer : Text) :
    runner.check config path buffer =
      match CommandLine.parse config.checkerCommand with
      | .error error => .error (.checker error)
      | .ok command =>
          match command.locate runner.findProgram with
          | .error error => .error (.checker error)
          | .ok resolved =>
              match (runner.execute resolved (Text.encode buffer)).map CheckerExit.output with
              | .error reason => .error (.checker (.launchFailed resolved.path reason))
              | .ok output => .ok (Diagnostic.ofOutput output buffer) := by
  unfold check
  cases CommandLine.parse config.checkerCommand with
  | error error => rfl
  | ok command =>
      dsimp only
      cases command.locate runner.findProgram with
      | error error => rfl
      | ok resolved =>
          dsimp only [Except.toOption, Option.map_some]
          cases runner.execute resolved (Text.encode buffer) with
          | error reason => rfl
          | ok exit =>
              dsimp only [Except.map]
              rw [Session.check_new_piped]

variable {runner : Runner} {config : Config}

theorem Runner.CheckFails.check {path buffer : Text} {error : StartError}
    (hcheck : runner.CheckFails config buffer error) :
    runner.check config path buffer = .error (.checker error) := by
  cases hcheck with
  | blank hcommand => simp [check_eq, hcommand]
  | missing hcommand hlocate => simp [check_eq, hcommand, hlocate]
  | unspawned hcommand hlocate hspawn => simp [check_eq, hcommand, hlocate, hspawn, Except.map]

theorem Runner.Checks.check {path buffer : Text} {diagnostics : List Diagnostic}
    (hcheck : runner.Checks config buffer diagnostics) :
    runner.check config path buffer = .ok diagnostics := by
  obtain ⟨hcommand, hlocate, hexit, houtput⟩ := hcheck
  simp [check_eq, hcommand, hlocate, hexit, CheckerExit.output, houtput, Except.map]

theorem Runner.checkFails_or_checks (runner : Runner) (config : Config) (buffer : Text) :
    (∃ error, runner.CheckFails config buffer error) ∨
      ∃ diagnostics, runner.Checks config buffer diagnostics := by
  cases hcommand : CommandLine.parse config.checkerCommand with
  | error error => exact .inl ⟨error, .blank hcommand⟩
  | ok command =>
      cases hlocate : command.locate runner.findProgram with
      | error error => exact .inl ⟨error, .missing hcommand hlocate⟩
      | ok resolved =>
          cases hexit : runner.execute resolved (Text.encode buffer) with
          | error reason => exact .inl ⟨_, .unspawned hcommand hlocate hexit⟩
          | ok exit => exact .inr ⟨_, .exited hcommand hlocate hexit rfl⟩

/-! ### Parsing -/

inductive Runner.ParseFails (runner : Runner) (file : Text) : Error → Prop where
  | unreadable {reason : Text} (hread : runner.readText file = .error reason) :
      ParseFails runner file (.unreadable file reason)
  | unparsable {source : Text} {error : SourceError}
      (hread : runner.readText file = .ok source)
      (hparse : runner.parser file source = .error error) :
      ParseFails runner file (.unparsable file error)

inductive Runner.Parses (runner : Runner) (file : Text) : Tree → Prop where
  | parsed {source : Text} {parse : ParseTree} (hread : runner.readText file = .ok source)
      (hparse : runner.parser file source = .ok parse) :
      Parses runner file (Tree.ofParse source parse)

theorem Runner.ParseFails.parseFile {file : Text} {error : Error}
    (hparse : runner.ParseFails file error) : runner.parseFile file = .error error := by
  cases hparse with
  | unreadable hread => simp [Runner.parseFile, readFile, hread, bind, Except.bind]
  | unparsable hread hparse => simp [Runner.parseFile, readFile, hread, hparse, bind, Except.bind]

theorem Runner.Parses.parseFile {file : Text} {tree : Tree} (hparse : runner.Parses file tree) :
    runner.parseFile file = .ok tree := by
  obtain ⟨hread, hparse⟩ := hparse
  simp [Runner.parseFile, readFile, hread, hparse, Document.tree, bind, Except.bind]

theorem Runner.parseFails_or_parses (runner : Runner) (file : Text) :
    (∃ error, runner.ParseFails file error) ∨ ∃ tree, runner.Parses file tree := by
  cases hread : runner.readText file with
  | error error => exact .inl ⟨_, .unreadable hread⟩
  | ok source =>
      cases hparse : runner.parser file source with
      | error error => exact .inl ⟨_, .unparsable hread hparse⟩
      | ok parse => exact .inr ⟨_, .parsed hread hparse⟩

/-! ### Streams that accept everything -/

/-- A stream that has accepted a text. -/
def Stream.accepting (stream : Stream) (text : Text) : Stream :=
  { stream with written := stream.written ++ Text.encode text }

section Accepting

variable {stream : Stream} (hlimit : stream.limit = none)
include hlimit

theorem Stream.write_of_limit (text : Text) :
    stream.write text = (stream.accepting text, none) := by
  simp [write, fits, hlimit, accepting]

theorem emit_of_limit (text : Text) (status : ExitStatus) :
    emit stream text status = (stream.accepting text, .ok status) := by
  rw [emit, stream.write_of_limit hlimit]

theorem emitJson_of_limit (json : Json) (status : ExitStatus) :
    emitJson stream json status = (stream.accepting (json.pretty ++ ['\n']), .ok status) := by
  rw [emitJson, stream.write_of_limit hlimit]
  dsimp only
  rw [emit_of_limit (by exact hlimit)]
  simp [Stream.accepting, Text.encode]

end Accepting

/-! ### Commands -/

def outlineText (json : Bool) (tree : Tree) : Text :=
  if json then (Json.array (OutlineItem.listToJson tree.outline)).pretty ++ ['\n']
  else OutlineItem.listingOfAll 0 tree.outline

def checkText (file : Text) (json : Bool) (diagnostics : List Diagnostic) : Text :=
  if json then (Json.list Diagnostic.toJson diagnostics).pretty ++ ['\n']
  else Diagnostic.listingOfAll file diagnostics

inductive Command.Fails (runner : Runner) (config : Config) : Command → Error → Prop where
  | indent {file : Text} {error : Error} (hparse : runner.ParseFails file error) :
      Fails runner config (.indent file) error
  | outline {file : Text} {json : Bool} {error : Error} (hparse : runner.ParseFails file error) :
      Fails runner config (.outline file json) error
  | unread {file : Text} {json : Bool} {reason : Text}
      (hread : runner.readText file = .error reason) :
      Fails runner config (.check file json) (.unreadable file reason)
  | check {file : Text} {json : Bool} {buffer : Text} {error : StartError}
      (hread : runner.readText file = .ok buffer)
      (hcheck : runner.CheckFails config buffer error) :
      Fails runner config (.check file json) (.checker error)

/-- A check of a file that can be read has run, and reports these diagnostics. -/
inductive Command.Reports (runner : Runner) (config : Config) :
    Command → List Diagnostic → Prop where
  | check {file : Text} {json : Bool} {buffer : Text} {diagnostics : List Diagnostic}
      (hread : runner.readText file = .ok buffer)
      (hcheck : runner.Checks config buffer diagnostics) :
      Reports runner config (.check file json) diagnostics

inductive Command.Answers (runner : Runner) (config : Config) :
    Command → Text → ExitStatus → Prop where
  | indent {file : Text} {tree : Tree} (hparse : runner.Parses file tree) :
      Answers runner config (.indent file) ((IndentRules.hcl config.indentWidth).reindent tree)
        .success
  | outline {file : Text} {json : Bool} {tree : Tree} (hparse : runner.Parses file tree) :
      Answers runner config (.outline file json) (outlineText json tree) .success
  | clean {file : Text} {json : Bool} {diagnostics : List Diagnostic}
      (hreports : Command.Reports runner config (.check file json) diagnostics)
      (hclean : ∀ diagnostic ∈ diagnostics, diagnostic.severity ≠ .error) :
      Answers runner config (.check file json) (checkText file json diagnostics) .success
  | faulty {file : Text} {json : Bool} {diagnostics : List Diagnostic}
      (hreports : Command.Reports runner config (.check file json) diagnostics)
      (hfaulty : ∃ diagnostic ∈ diagnostics, diagnostic.severity = .error) :
      Answers runner config (.check file json) (checkText file json diagnostics) .failure

variable {command : Command}

theorem Command.Fails.execute {error : Error} (hfails : command.Fails runner config error)
    (stdout : Stream) : execute runner config stdout command = (stdout, .error error) := by
  cases hfails with
  | indent hparse => simp [Cli.execute, hparse.parseFile]
  | outline hparse => simp [Cli.execute, hparse.parseFile]
  | unread hread => simp [Cli.execute, Runner.readFile, hread, bind, Except.bind]
  | check hread hcheck =>
      simp [Cli.execute, Runner.readFile, hread, hcheck.check, bind, Except.bind]

theorem execute_check_of_reports {file : Text} {json : Bool} {diagnostics : List Diagnostic}
    (hreports : Command.Reports runner config (.check file json) diagnostics) {stdout : Stream}
    (hlimit : stdout.limit = none) :
    execute runner config stdout (.check file json) =
      (stdout.accepting (checkText file json diagnostics), .ok (checkStatus diagnostics)) := by
  obtain ⟨hread, hcheck⟩ := hreports
  simp only [execute, Runner.readFile, hread, hcheck.check, bind, Except.bind]
  cases json with
  | true => exact emitJson_of_limit hlimit _ _
  | false => exact emit_of_limit hlimit _ _

theorem Command.Answers.execute {text : Text} {status : ExitStatus}
    (hanswers : command.Answers runner config text status) {stdout : Stream}
    (hlimit : stdout.limit = none) :
    execute runner config stdout command = (stdout.accepting text, .ok status) := by
  cases hanswers with
  | indent hparse =>
      simp only [Cli.execute, hparse.parseFile]
      exact emit_of_limit hlimit _ _
  | @outline file json tree hparse =>
      simp only [Cli.execute, hparse.parseFile]
      cases json with
      | true => exact emitJson_of_limit hlimit _ _
      | false => exact emit_of_limit hlimit _ _
  | clean hreports hclean =>
      rw [execute_check_of_reports hreports hlimit]
      simpa [checkStatus] using hclean
  | faulty hreports hfaulty =>
      rw [execute_check_of_reports hreports hlimit]
      simpa [checkStatus] using hfaulty

theorem Command.fails_or_answers (runner : Runner) (config : Config) (command : Command) :
    (∃ error, command.Fails runner config error) ∨
      ∃ text status, command.Answers runner config text status := by
  cases command with
  | indent file =>
      rcases runner.parseFails_or_parses file with ⟨error, hparse⟩ | ⟨tree, hparse⟩
      · exact .inl ⟨error, .indent hparse⟩
      · exact .inr ⟨_, _, .indent hparse⟩
  | outline file json =>
      rcases runner.parseFails_or_parses file with ⟨error, hparse⟩ | ⟨tree, hparse⟩
      · exact .inl ⟨error, .outline hparse⟩
      · exact .inr ⟨_, _, .outline hparse⟩
  | check file json =>
      cases hread : runner.readText file with
      | error error => exact .inl ⟨_, .unread hread⟩
      | ok buffer =>
          obtain ⟨error, hcheck⟩ | ⟨diagnostics, hcheck⟩ :=
            runner.checkFails_or_checks config buffer
          · exact .inl ⟨_, .check hread hcheck⟩
          · by_cases hfaulty : ∃ diagnostic ∈ diagnostics, diagnostic.severity = .error
            · exact .inr ⟨_, _, .faulty (.check hread hcheck) hfaulty⟩
            · refine .inr ⟨_, _, .clean (.check hread hcheck) fun diagnostic hmem herror => ?_⟩
              exact hfaulty ⟨diagnostic, hmem, herror⟩

/-! ### Runs -/

section Asked

variable (runner : Runner) (arguments : List Text)

/-- What the arguments behind the flags for settings ask for. -/
def Runner.asked : Except Refusal Command :=
  runner.readArguments ((ArgumentSplit.of arguments).command arguments)

/-- What loading the settings by the flags in front of the command comes to. -/
def Runner.loaded : Except Text Config :=
  runner.loadSettings (ArgumentSplit.of arguments).settings

/-- Valid settings have been loaded, and logging has been started by them. -/
structure Runner.Prepared (config : Config) : Prop where
  loaded : runner.loaded arguments = .ok config
  valid : config.validate = .ok ()
  logging : runner.startLogging config = .ok ()

inductive Runner.PrepareFails : Error → Prop where
  | settings {reason : Text} (hload : runner.loaded arguments = .error reason) :
      PrepareFails (.settings reason)
  | invalid {config : Config} {error : ConfigError}
      (hload : runner.loaded arguments = .ok config) (hvalid : config.validate = .error error) :
      PrepareFails (.invalidSettings error)
  | logging {config : Config} {reason : Text}
      (hload : runner.loaded arguments = .ok config) (hvalid : config.validate = .ok ())
      (hlogging : runner.startLogging config = .error reason) :
      PrepareFails (.logging reason)

/-- A run on these arguments fails with an error. -/
inductive Fails : Error → Prop where
  | usage {complaint : Text} (hasked : runner.asked arguments = .error ⟨true, complaint⟩) :
      Fails (.usage complaint)
  | prepare {command : Command} {error : Error} (hasked : runner.asked arguments = .ok command)
      (hprepare : runner.PrepareFails arguments error) : Fails error
  | command {command : Command} {config : Config} {error : Error}
      (hasked : runner.asked arguments = .ok command)
      (hprepare : runner.Prepared arguments config) (hfails : command.Fails runner config error) :
      Fails error

/-- A run on these arguments answers with a text. -/
inductive Answers : Text → ExitStatus → Prop where
  | informs {text : Text} (hasked : runner.asked arguments = .error ⟨false, text⟩) :
      Answers text .success
  | command {command : Command} {config : Config} {text : Text} {status : ExitStatus}
      (hasked : runner.asked arguments = .ok command)
      (hprepare : runner.Prepared arguments config)
      (hanswers : command.Answers runner config text status) : Answers text status

/-- A run on these arguments checks a file and reports these diagnostics. -/
def Reports (diagnostics : List Diagnostic) : Prop :=
  ∃ command config, runner.asked arguments = .ok command ∧ runner.Prepared arguments config ∧
    command.Reports runner config diagnostics

end Asked

variable {arguments : List Text}

theorem Runner.Prepared.prepare (hprepare : runner.Prepared arguments config) :
    runner.prepare (runner.loadConfig (ArgumentSplit.of arguments).settings) = .ok config := by
  obtain ⟨hload, hvalid, hlogging⟩ := hprepare
  rw [Runner.loaded] at hload
  simp [Runner.prepare, loadConfig, hload, hvalid, hlogging, bind, Except.bind]

theorem Runner.PrepareFails.prepare {error : Error}
    (hprepare : runner.PrepareFails arguments error) :
    runner.prepare (runner.loadConfig (ArgumentSplit.of arguments).settings) = .error error := by
  cases hprepare with
  | settings hload =>
      rw [Runner.loaded] at hload
      simp [Runner.prepare, loadConfig, hload, bind, Except.bind]
  | invalid hload hvalid =>
      rw [Runner.loaded] at hload
      simp [Runner.prepare, loadConfig, hload, hvalid, bind, Except.bind]
  | logging hload hvalid hlogging =>
      rw [Runner.loaded] at hload
      simp [Runner.prepare, loadConfig, hload, hvalid, hlogging, bind, Except.bind]

theorem Runner.prepareFails_or_prepared (runner : Runner) (arguments : List Text) :
    (∃ error, runner.PrepareFails arguments error) ∨
      ∃ config, runner.Prepared arguments config := by
  cases hload : runner.loaded arguments with
  | error error => exact .inl ⟨_, .settings hload⟩
  | ok config =>
      cases hvalid : config.validate with
      | error error => exact .inl ⟨_, .invalid hload hvalid⟩
      | ok =>
          cases hlogging : runner.startLogging config with
          | error reason => exact .inl ⟨_, .logging hload hvalid hlogging⟩
          | ok => exact .inr ⟨config, hload, hvalid, hlogging⟩

theorem fails_or_answers (runner : Runner) (arguments : List Text) :
    (∃ error, Fails runner arguments error) ∨
      ∃ text status, Answers runner arguments text status := by
  cases hasked : runner.asked arguments with
  | error refusal =>
      obtain ⟨isError, text⟩ := refusal
      cases isError with
      | true => exact .inl ⟨_, .usage hasked⟩
      | false => exact .inr ⟨_, _, .informs hasked⟩
  | ok command =>
      obtain ⟨error, hprepare⟩ | ⟨config, hprepare⟩ := runner.prepareFails_or_prepared arguments
      · exact .inl ⟨error, .prepare hasked hprepare⟩
      · obtain ⟨error, hfails⟩ | ⟨text, status, hanswers⟩ := command.fails_or_answers runner config
        · exact .inl ⟨error, .command hasked hprepare hfails⟩
        · exact .inr ⟨text, status, .command hasked hprepare hanswers⟩

theorem Fails.run {error : Error} (hfails : Fails runner arguments error) {streams : Streams}
    (hlimit : streams.stderr.limit = none) :
    runner.run arguments streams =
      (.failure, ⟨streams.stdout, streams.stderr.accepting (error.message ++ ['\n'])⟩) := by
  have hfail : ∀ error : Error, fail streams error =
      (.failure, ⟨streams.stdout, streams.stderr.accepting (error.message ++ ['\n'])⟩) := by
    intro error
    rw [fail, Stream.write_of_limit hlimit]
  cases hfails with
  | usage hasked =>
      rw [Runner.asked] at hasked
      simp only [Runner.run, Runner.runWithLoader, hasked, if_true, hfail]
  | prepare hasked hprepare =>
      rw [Runner.asked] at hasked
      simp only [Runner.run, Runner.runWithLoader, hasked, hprepare.prepare, hfail]
  | command hasked hprepare hfails =>
      rw [Runner.asked] at hasked
      simp only [Runner.run, Runner.runWithLoader, hasked, hprepare.prepare, hfails.execute, hfail]

theorem Answers.run {text : Text} {status : ExitStatus}
    (hanswers : Answers runner arguments text status) {streams : Streams}
    (hlimit : streams.stdout.limit = none) :
    runner.run arguments streams =
      (status, { streams with stdout := streams.stdout.accepting text }) := by
  cases hanswers with
  | informs hasked =>
      rw [Runner.asked] at hasked
      simp only [Runner.run, Runner.runWithLoader, hasked, Bool.false_eq_true, if_false, inform,
        Stream.write_of_limit hlimit]
  | command hasked hprepare hanswers =>
      rw [Runner.asked] at hasked
      simp only [Runner.run, Runner.runWithLoader, hasked, hprepare.prepare,
        hanswers.execute hlimit]

/-- What the checker has written decides a run, and its exit code does not. -/
theorem run_of_same_output {other : Executable → Bytes → Except Text CheckerExit}
    (hother : ∀ command input, (other command input).map CheckerExit.output =
      (runner.execute command input).map CheckerExit.output)
    (arguments : List Text) (streams : Streams) :
    Runner.run { runner with execute := other } arguments streams =
      runner.run arguments streams := by
  have hcheck : ∀ config path buffer,
      Runner.check { runner with execute := other } config path buffer =
        runner.check config path buffer := by
    intro config path buffer
    rw [Runner.check_eq, Runner.check_eq]
    simp only [hother]
  have hexecute : ∀ config stdout command,
      execute { runner with execute := other } config stdout command =
        execute runner config stdout command := by
    intro config stdout command
    cases command with
    | indent file => rfl
    | outline file json => rfl
    | check file json =>
        simp only [execute, Runner.readFile]
        have hread : Runner.readText { runner with execute := other } file =
            runner.readText file := rfl
        rw [hread]
        cases runner.readText file with
        | error error => rfl
        | ok buffer =>
            simp only [bind, Except.bind, hcheck]
  unfold Runner.run Runner.runWithLoader
  simp only [hexecute]
  rfl

theorem Runner.Checks.unique {buffer : Text} {left right : List Diagnostic}
    (hleft : runner.Checks config buffer left) (hright : runner.Checks config buffer right) :
    left = right :=
  have hcheck : runner.check config [] buffer = .ok left := hleft.check
  Except.ok.inj (hcheck.symm.trans hright.check)

theorem Command.Reports.unique {left right : List Diagnostic}
    (hleft : command.Reports runner config left) (hright : command.Reports runner config right) :
    left = right := by
  obtain ⟨hread, hcheck⟩ := hleft
  obtain ⟨hread', hcheck'⟩ := hright
  obtain rfl := Except.ok.inj (hread.symm.trans hread')
  exact hcheck.unique hcheck'

theorem Runner.Prepared.unique {left right : Config} (hleft : runner.Prepared arguments left)
    (hright : runner.Prepared arguments right) : left = right :=
  Except.ok.inj (hleft.loaded.symm.trans hright.loaded)

theorem Answers.reports_of_failure {text : Text}
    (hanswers : Answers runner arguments text .failure) :
    ∃ diagnostics, Reports runner arguments diagnostics ∧
      ∃ diagnostic ∈ diagnostics, diagnostic.severity = .error := by
  obtain _ | ⟨hasked, hprepare, hanswers⟩ := hanswers
  cases hanswers with
  | faulty hreports hfaulty => exact ⟨_, ⟨_, _, hasked, hprepare, hreports⟩, hfaulty⟩

theorem Answers.failure_of_reports {text : Text} {status : ExitStatus}
    {diagnostics : List Diagnostic} (hanswers : Answers runner arguments text status)
    (hreports : Reports runner arguments diagnostics)
    (hfaulty : ∃ diagnostic ∈ diagnostics, diagnostic.severity = .error) : status = .failure := by
  obtain ⟨command, config, hasked, hprepare, hreports⟩ := hreports
  cases hanswers with
  | informs hother => cases hother.symm.trans hasked
  | command hother hprepare' hanswers =>
      obtain rfl := Except.ok.inj (hother.symm.trans hasked)
      obtain rfl := hprepare'.unique hprepare
      cases hanswers with
      | indent => cases hreports
      | outline => cases hreports
      | clean hreports' hclean =>
          obtain rfl := hreports'.unique hreports
          obtain ⟨diagnostic, hmem, herror⟩ := hfaulty
          exact absurd herror (hclean diagnostic hmem)
      | faulty => rfl

/-- **What a run writes.** When both streams accept everything, a run comes to an error or to an
answer. An error goes to standard error with one line ending behind it, standard output stays as it
is, and the run fails. An answer goes to standard output, standard error stays as it is, and the run
fails if and only if it is a check that reports an error. What code the checker ended with makes no
difference. -/
theorem run_separates_streams (runner : Runner) (arguments : List Text) (streams : Streams)
    (hstdout : streams.stdout.limit = none) (hstderr : streams.stderr.limit = none) :
    ((∃ error, Fails runner arguments error) ∨
      ∃ text status, Answers runner arguments text status) ∧
    (∀ error, Fails runner arguments error →
      runner.run arguments streams =
        (.failure, ⟨streams.stdout, streams.stderr.accepting (error.message ++ ['\n'])⟩)) ∧
    (∀ text status, Answers runner arguments text status →
      runner.run arguments streams =
        (status, ⟨streams.stdout.accepting text, streams.stderr⟩) ∧
      (status = .failure ↔ ∃ diagnostics, Reports runner arguments diagnostics ∧
        ∃ diagnostic ∈ diagnostics, diagnostic.severity = .error)) ∧
    ∀ other : Executable → Bytes → Except Text CheckerExit,
      (∀ command input, (other command input).map CheckerExit.output =
        (runner.execute command input).map CheckerExit.output) →
      Runner.run { runner with execute := other } arguments streams =
        runner.run arguments streams := by
  refine ⟨fails_or_answers runner arguments, ?fails, ?answers, ?code⟩
  case fails => exact fun error hfails => hfails.run hstderr
  case answers =>
    intro text status hanswers
    refine ⟨hanswers.run hstdout, ?_, ?_⟩
    · rintro rfl
      exact hanswers.reports_of_failure
    · rintro ⟨diagnostics, hreports, hfaulty⟩
      exact hanswers.failure_of_reports hreports hfaulty
  case code => exact fun other hother => run_of_same_output hother arguments streams

/-- One file, and a checker that reports an error in it but exits with zero. -/
def reportingHost : Host where
  files := ⟨[], [(["main.tf".toList], .file [97] false), (["check".toList], .file [] true)]⟩
  environment := []
  parser := fun _ _ => .error (.unparsable "parsing failed")
  execute := fun _ _ =>
    .ok ⟨Text.encode "Error: Bad\n\n  on main.tf line 1:\n".toList, [], some 0⟩

theorem run_reporting :
    let runner := reportingHost.runner
    let indent := ["terrain".toList, "indent".toList, "none.tf".toList]
    let blank := ["terrain".toList, "--checker-command".toList, [' '], "check".toList,
      "main.tf".toList]
    let check := ["terrain".toList, "--checker-command".toList, "./check".toList, "check".toList,
      "main.tf".toList]
    let missing := "No such file or directory (os error 2)".toList
    let answer := "main.tf:1: error: Bad\n".toList
    Fails runner indent (.unreadable "none.tf".toList missing) ∧
      runner.run indent ⟨.unlimited, .unlimited⟩ =
        (.failure, ⟨.unlimited, Stream.unlimited.accepting
          "failed to read none.tf: No such file or directory (os error 2)\n".toList⟩) ∧
      Fails runner blank (.invalidSettings .blankChecker) ∧
      runner.run blank ⟨.unlimited, .unlimited⟩ =
        (.failure, ⟨.unlimited, Stream.unlimited.accepting
          "invalid configuration: checker command is empty\n".toList⟩) ∧
      Answers runner check answer .failure ∧
      runner.run check ⟨.unlimited, .unlimited⟩ =
        (.failure, ⟨Stream.unlimited.accepting answer, .unlimited⟩) := by
  intro runner indent blank check missing answer
  have hindent := run_separates_streams runner indent ⟨.unlimited, .unlimited⟩ rfl rfl
  have hblank := run_separates_streams runner blank ⟨.unlimited, .unlimited⟩ rfl rfl
  have hcheck := run_separates_streams runner check ⟨.unlimited, .unlimited⟩ rfl rfl
  have hunreadable : Fails runner indent (.unreadable "none.tf".toList missing) :=
    .command rfl ⟨rfl, rfl, rfl⟩ (.indent (.unreadable rfl))
  have hblankLoaded : runner.loaded blank =
      .ok { Config.standard with checkerCommand := [' '] } := rfl
  have hinvalid : Fails runner blank (.invalidSettings .blankChecker) :=
    .prepare rfl (.invalid hblankLoaded rfl)
  have hreports : Command.Reports runner
      { Config.standard with checkerCommand := "./check".toList }
      (.check "main.tf".toList false) [⟨1, ⟨0, 1⟩, .error, "Bad".toList, "Bad".toList⟩] :=
    .check rfl (.exited rfl rfl rfl rfl)
  have hanswers : Answers runner check answer .failure :=
    .command rfl ⟨rfl, rfl, rfl⟩ (.faulty hreports ⟨_, .head _, rfl⟩)
  exact ⟨hunreadable, hindent.2.1 _ hunreadable, hinvalid, hblank.2.1 _ hinvalid, hanswers,
    (hcheck.2.2.1 answer _ hanswers).1⟩

end Cli

end HclEdit
