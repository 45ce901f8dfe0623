import HclEdit.Text.Basic

/-!
What the program says about its own use.
-/

namespace HclEdit.Cli

inductive Verb where
  | indent
  | outline
  | check
deriving DecidableEq

namespace Verb

def all : List Verb :=
  [indent, outline, check]

def name : Verb → Text
  | indent => "indent".toList
  | outline => "outline".toList
  | check => "check".toList

def ofName? (text : Text) : Option Verb :=
  all.find? (·.name == text)

/-- Whether the answer can be asked for as JSON. -/
def hasJson : Verb → Bool
  | indent => false
  | outline | check => true

def about : Verb → Text
  | indent => "Prints the file re-indented by the configured rules".toList
  | outline => "Prints the attributes and blocks defined in the file".toList
  | check => "Runs the configured checker over the file".toList

def fileHelp : Verb → Text
  | indent => "File to re-indent".toList
  | outline => "File to outline".toList
  | check => "File to check".toList

def usage (verb : Verb) : Text :=
  "Usage: terrain ".toList ++ verb.name ++
    (if verb.hasJson then " [OPTIONS]".toList else []) ++ " <FILE>".toList

def options : Verb → List String
  | indent => ["  -h, --help  Print help"]
  | outline =>
      ["      --json  Emit JSON instead of an indented listing", "  -h, --help  Print help"]
  | check =>
      ["      --json  Emit JSON instead of `FILE:LINE: severity: message` lines",
        "  -h, --help  Print help"]

end Verb

def unlines (lines : List Text) : Text :=
  lines.flatMap (· ++ ['\n'])

def about : Text :=
  "Command-line interface for indenting, outlining and checking HCL files".toList

def usage : Text :=
  "Usage: terrain <COMMAND>".toList

def verbLine (verb : Verb) : Text :=
  ' ' :: ' ' :: verb.name ++ List.replicate (9 - verb.name.length) ' ' ++ verb.about

/-- What a request for help is about. -/
inductive Topic where
  | program
  | verb (subject : Verb)
deriving DecidableEq

def Topic.usage : Topic → Text
  | program => Cli.usage
  | verb subject => subject.usage

def Topic.help : Topic → Text
  | program =>
      unlines ([about, [], Cli.usage, [], "Commands:".toList] ++ Verb.all.map verbLine ++
        [[], "Options:".toList, "  -h, --help     Print help".toList,
          "  -V, --version  Print version".toList])
  | verb subject =>
      unlines ([subject.about, [], subject.usage, [], "Arguments:".toList,
        "  <FILE>  ".toList ++ subject.fileHelp, [], "Options:".toList] ++
          subject.options.map String.toList)

def version : Text :=
  "terrain 0.1.0\n".toList

end HclEdit.Cli
