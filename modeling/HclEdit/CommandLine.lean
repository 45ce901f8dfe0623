import HclEdit.Text.Blank

/-!
Checker command lines: a program and its arguments, separated by blanks without any quoting.
-/

namespace HclEdit

inductive StartError where
  | blankCommand
  | programNotFound (program : Text)
  | launchFailed (executable reason : Text)
deriving DecidableEq

def StartError.message : StartError → Text
  | blankCommand => "checker command is empty".toList
  | programNotFound program => "checker executable '".toList ++ program ++ "' not found".toList
  | launchFailed executable reason =>
      "checker '".toList ++ executable ++ "' failed to start: ".toList ++ reason

structure CommandLine where
  program : Text
  arguments : List Text
deriving DecidableEq

/-- A program that has been located, and the arguments for it. -/
structure Executable where
  path : Text
  arguments : List Text
deriving DecidableEq

namespace CommandLine

def parse (line : Text) : Except StartError CommandLine :=
  match line.words with
  | [] => .error .blankCommand
  | program :: arguments => .ok ⟨program, arguments⟩

def render (command : CommandLine) : Text :=
  Text.join [' '] (command.program :: command.arguments)

def standard : CommandLine :=
  ⟨"terraform".toList, ["fmt".toList, "-no-color".toList, ['-']]⟩

/-- The command with its program located, given where a program is found. -/
def locate (find : Text → Option Text) (command : CommandLine) : Except StartError Executable :=
  match find command.program with
  | some path => .ok ⟨path, command.arguments⟩
  | none => .error (.programNotFound command.program)

end CommandLine

end HclEdit
