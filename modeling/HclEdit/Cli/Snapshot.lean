import HclEdit.Cli.Run
import HclEdit.Execution
import HclEdit.Json.Reader
import HclEdit.ParseTree.Json

/-!
The files that a run may look at, so that they can be gathered beforehand, and the host that is made
of them. The parse tree of a file lies beside it, under its name with `.tree` added.
-/

namespace HclEdit.Cli

/-- The variables of a process as the system keeps them: texts with an equals sign after the name,
each ended by a zero byte. -/
def variablesOf (block : Bytes) : Environment.Variables :=
  ((Text.decodeLossy block).pieces (· == '\x00')).filterMap fun entry =>
    match ConfigFlag.splitAtEquals entry with
    | (name, some value) => some (name, value)
    | _ => none

def treePath (path : Text) : Text :=
  path ++ ".tree".toList

/-- The paths that the arguments and the environment lead to. -/
def settingsPaths (arguments : List Text) (environment : Environment.Variables) : List Text :=
  let given := arguments ++ arguments.filterMap fun argument =>
    (ConfigFlag.splitAtEquals argument).2
  given ++ given.map treePath ++ Config.candidates environment

/-- The paths that a checker command leads to. -/
def checkerPaths (environment : Environment.Variables) (command : Text) : List Text :=
  let directories := (Environment.get? environment "PATH".toList).elim [] (Text.pieces (· == ':'))
  let words := command.words
  words ++ (words.take 1).flatMap fun program => directories.map (FileSystem.pathIn · program)

def Host.ofFiles (files : FileSystem) (environment : Environment.Variables) : Host :=
  { files
    environment
    parser := fun path _ =>
      let tree := do
        let text ← (files.readText (treePath path)).toOption
        ParseTree.ofJson? (← Json.read? text)
      tree.elim (.error (.unparsable "parsing failed")) .ok
    execute := fun command input =>
      (Execution.exec files environment command input).mapError Shell.LaunchError.message }

end HclEdit.Cli
