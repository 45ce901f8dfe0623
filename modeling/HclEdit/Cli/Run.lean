import HclEdit.Cli.Arguments
import HclEdit.Cli.Runner
import HclEdit.Config.Load
import HclEdit.SearchPath

/-!
Running the program from the command line, with readers of its own for the arguments and for the
files and variables that settings come from.
-/

namespace HclEdit.Cli

/-- What the command line finds around it. -/
structure Host where
  files : FileSystem
  environment : Environment.Variables
  startLogging : Config → Except Text Unit := fun _ => .ok ()
  parser : Text → Text → Except SourceError ParseTree
  execute : Executable → Bytes → Except Text CheckerExit

namespace Host

def searchPath (host : Host) : List Text :=
  ((Environment.get? host.environment "PATH".toList).elim [] (Text.pieces (· == ':')))

def loadSettings (host : Host) (arguments : List Text) : Except Text Config :=
  (Config.load ⟨arguments, host.environment, host.files⟩).mapError ConfigLoadError.message

def runner (host : Host) : Runner where
  readArguments := readCommand
  loadSettings := host.loadSettings
  startLogging := host.startLogging
  readBytes path := (host.files.read path).mapError FileError.message
  parser := host.parser
  findProgram := host.files.findProgram? host.searchPath
  execute := host.execute

end Host

def run (host : Host) (arguments : List Text) (streams : Streams) : ExitStatus × Streams :=
  host.runner.run arguments streams

end HclEdit.Cli
