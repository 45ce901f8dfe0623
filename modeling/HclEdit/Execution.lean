import HclEdit.Config.Environment
import HclEdit.Session
import HclEdit.Shell.Evaluation

/-!
Running an executable file on an input, to its end. The programs of the system are at hand, and
what they write to the files is forgotten.
-/

namespace HclEdit

/-- What is said about a file that cannot be run. -/
def Shell.LaunchError.message : Shell.LaunchError → Text
  | file error => error.message
  | unknownFormat => "Exec format error (os error 8)".toList
  | tooManyInterpreters => "Too many levels of symbolic links (os error 40)".toList

namespace Execution

open Shell

/-- The programs that every run can count on, and the directories of the system. -/
def system : List (Place × FileEntry) :=
  let programs := [("cat", "cat"), ("dash", "sh"), ("echo", "echo"), ("env", "env"),
    ("false", "false"), ("rm", "rm"), ("sh", "sh"), ("sleep", "sleep"), ("touch", "touch"),
    ("true", "true")]
  let root := ["bin", "boot", "dev", "etc", "home", "lib", "lib64", "media", "mnt", "opt", "proc",
    "root", "run", "sbin", "srv", "sys", "tmp", "usr", "var"]
  let directories := root.map ([·]) ++ [["dev", "fd"], ["proc", "self", "fd"]]
  programs.flatMap (fun (name, program) =>
    [["bin"], ["usr", "bin"]].map fun directory =>
      ((directory ++ [name]).map String.toList, FileEntry.program program)) ++
    directories.map (fun directory => (directory.map String.toList, .directory)) ++
    ["null", "stdin", "stdout", "stderr"].map fun name =>
      (["dev".toList, name.toList], .file [] false)

/-- How often the body of a loop may be run. -/
def maxRounds : Nat := 1000000

/-- How deep commands may be nested. -/
def maxDepth : Nat := 1000000

/-- The number of the first process. -/
def firstNumber : Nat := 4242

/-- A machine with nothing open but an input and two outputs. -/
def machine (files : FileSystem) (environment : List (Octets × Octets)) (name : Octets)
    (input : Bytes) : Machine :=
  { world :=
      { files
        opened := #[⟨.input, .read, 0⟩, ⟨.output, .write, 0⟩, ⟨.errors, .write, 0⟩]
        pipes := #[]
        input := Octets.ofBytes input
        output := []
        errors := []
        shells := firstNumber
        signals := [] }
    shell :=
      Process.fresh name firstNumber environment [(0, 0), (1, 1), (2, 2)] files.workingDirectory }

/-- What a process leaves behind; one that a signal has ended has no code. -/
def exitOf (result : Except Abort Nat) (world : World) : CheckerExit :=
  let written (texts : List Octets) : Bytes := Octets.toBytes texts.reverse.flatten
  { stdout := written world.output
    stderr := written world.errors
    code := result.toOption.map (· % 256) }

def exec (files : FileSystem) (environment : Environment.Variables) (command : Executable)
    (input : Bytes) : Except LaunchError CheckerExit := do
  let bytes : Environment.Variables → List (Octets × Octets) :=
    List.map fun (name, value) => (Octets.ofText name, Octets.ofText value)
  let path := Octets.ofText command.path
  let invocation ← Launch.resolve files path path (command.arguments.map Octets.ofText)
  let run := Process.runProgram (Evaluation.evaluate maxRounds maxDepth) (bytes environment)
    Process.maxPrograms invocation
  let (result, final) :=
    run.run.run (machine files (bytes environment) invocation.name input)
  return exitOf result final.world

end Execution

end HclEdit
