import HclEdit.Cli.Command
import HclEdit.Cli.Error
import HclEdit.Cli.Stream
import HclEdit.Config.Flags
import HclEdit.Diagnostic.Listing
import HclEdit.Document
import HclEdit.Files
import HclEdit.Indent.Reindent
import HclEdit.Json.Printer
import HclEdit.Outline.Listing
import HclEdit.Session

/-!
Running the program on its arguments: the flags for settings are split off, the command is read, the
settings are loaded, and the command is carried out. An error leaves standard output alone unless
writing to it is what failed.
-/

namespace HclEdit.Cli

/-- What a run depends on. The reader of arguments is given the command behind the name of the
program, and the loader of settings the flags for them behind that name; what either has to say is
passed on as it is. Logging is started by the settings. A parser may go by the path of a file as
well as by its text. -/
structure Runner where
  readArguments : List Text → Except Refusal Command
  loadSettings : List Text → Except Text Config
  startLogging : Config → Except Text Unit
  readBytes : Text → Except Text Bytes
  parser : Text → Text → Except SourceError ParseTree
  findProgram : Text → Option Text
  execute : Executable → Bytes → Except Text CheckerExit

inductive ExitStatus where
  | success
  | failure
deriving DecidableEq

structure Streams where
  stdout : Stream
  stderr : Stream
deriving DecidableEq

abbrev Outcome := Stream × Except Error ExitStatus

namespace Runner

/-- The text of a file, or why there is none. -/
def readText (runner : Runner) (path : Text) : Except Text Text :=
  match runner.readBytes path with
  | .error reason => .error reason
  | .ok bytes =>
      match Text.decode? bytes with
      | some text => .ok text
      | none => .error FileError.notUtf8.message

def readFile (runner : Runner) (path : Text) : Except Error Text :=
  match runner.readText path with
  | .ok text => .ok text
  | .error reason => .error (.unreadable path reason)

/-- The tree of a file, which has been read first. -/
def parseFile (runner : Runner) (path : Text) : Except Error Tree := do
  let source ← runner.readFile path
  match runner.parser path source with
  | .ok parse =>
      let document : Document := { source, parse }
      .ok document.tree
  | .error error => .error (.unparsable path error)

/-- The settings for a run; they must be valid. -/
def loadConfig (runner : Runner) (arguments : List Text) : Except Error Config :=
  match runner.loadSettings arguments with
  | .error reason => .error (.settings reason)
  | .ok config =>
      match config.validate with
      | .error error => .error (.invalidSettings error)
      | .ok () => .ok config

/-- Starts logging by the settings for a run. -/
def prepare (runner : Runner) (loaded : Except Error Config) : Except Error Config := do
  let config ← loaded
  match runner.startLogging config with
  | .error reason => .error (.logging reason)
  | .ok () => .ok config

/-- Checks a text with the configured checker, run to its end. -/
def check (runner : Runner) (config : Config) (path buffer : Text) :
    Except Error (List Diagnostic) := do
  match CommandLine.parse config.checkerCommand with
  | .error error => .error (.checker error)
  | .ok command =>
      let resolution := command.locate runner.findProgram
      let run := resolution.toOption.map fun resolved =>
        runner.execute resolved (Text.encode buffer)
      let (launch, exit) : Launch × CheckerExit :=
        match run with
        | some (.ok exit) => (.piped, exit)
        | some (.error reason) => (.failed reason, ⟨[], [], none⟩)
        | none => (.piped, ⟨[], [], none⟩)
      match (Session.new.check resolution launch exit buffer).2 with
      | .error error => .error (.checker error)
      | .ok none => .error (.abandoned path)
      | .ok (some report) => .ok report.diagnostics

end Runner

def emit (stdout : Stream) (text : Text) (status : ExitStatus) : Outcome :=
  match stdout.write text with
  | (stdout, none) => (stdout, .ok status)
  | (stdout, some reason) => (stdout, .error (.plainOutput reason))

/-- Writes a JSON value and then the end of its line. -/
def emitJson (stdout : Stream) (json : Json) (status : ExitStatus) : Outcome :=
  match stdout.write json.pretty with
  | (stdout, none) => emit stdout ['\n'] status
  | (stdout, some reason) => (stdout, .error (.jsonOutput reason))

/-- A check fails if it reports an error, whatever the checker's own exit code was. -/
def checkStatus (diagnostics : List Diagnostic) : ExitStatus :=
  if diagnostics.any (·.severity = .error) then .failure else .success

def execute (runner : Runner) (config : Config) (stdout : Stream) : Command → Outcome
  | .indent file =>
      match runner.parseFile file with
      | .error error => (stdout, .error error)
      | .ok tree => emit stdout ((IndentRules.hcl config.indentWidth).reindent tree) .success
  | .outline file json =>
      match runner.parseFile file with
      | .error error => (stdout, .error error)
      | .ok tree =>
          if json then
            emitJson stdout (.array (OutlineItem.listToJson tree.outline)) .success
          else
            emit stdout (OutlineItem.listingOfAll 0 tree.outline) .success
  | .check file json =>
      match runner.readFile file >>= runner.check config file with
      | .error error => (stdout, .error error)
      | .ok diagnostics =>
          let status := checkStatus diagnostics
          if json then emitJson stdout (Json.list Diagnostic.toJson diagnostics) status
          else emit stdout (Diagnostic.listingOfAll file diagnostics) status

/-- Writes an error to standard error, as far as that accepts it. -/
def fail (streams : Streams) (error : Error) : ExitStatus × Streams :=
  (.failure, { streams with stderr := (streams.stderr.write (error.message ++ ['\n'])).1 })

/-- Writes an answer that needs no settings. -/
def inform (streams : Streams) (text : Text) : ExitStatus × Streams :=
  match streams.stdout.write text with
  | (stdout, none) => (.success, { streams with stdout })
  | (stdout, some _) => (.failure, { streams with stdout })

namespace Runner

/-- Runs the program with a loader of its own for the settings. -/
def runWithLoader (runner : Runner) (load : List Text → Except Error Config)
    (arguments : List Text) (streams : Streams) : ExitStatus × Streams :=
  let split := ArgumentSplit.of arguments
  match runner.readArguments (split.command arguments) with
  | .error refusal =>
      if refusal.isError then fail streams (.usage refusal.text)
      else inform streams refusal.text
  | .ok command =>
      match runner.prepare (load split.settings) with
      | .error error => fail streams error
      | .ok config =>
          match Cli.execute runner config streams.stdout command with
          | (stdout, .ok status) => (status, { streams with stdout })
          | (stdout, .error error) => fail { streams with stdout } error

def run (runner : Runner) (arguments : List Text) (streams : Streams) : ExitStatus × Streams :=
  runner.runWithLoader runner.loadConfig arguments streams

end Runner

end HclEdit.Cli
