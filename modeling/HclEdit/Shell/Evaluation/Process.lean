import HclEdit.Shell.Evaluation.Call
import HclEdit.Shell.Redirect
import HclEdit.Shell.Launch
import HclEdit.Shell.Programs

/-!
Running programs: those of the system, and shells with scripts of their own. A program starts with
the open files, the working directory and the exported variables of the shell that runs it.
-/

namespace HclEdit.Shell.Process

open Act

/-- The variables that every shell has from the start. -/
def defaults : List (Octets × Octets) :=
  [("IFS", " \t\n"), ("OPTIND", "1"), ("PPID", "1"), ("PS1", "# "), ("PS2", "> "),
    ("PS4", "+ ")].map fun (name, value) => (name.toList, value.toList)

/-- The number of a new process. -/
def newNumber : Act Nat := do
  modifyWorld fun world => { world with shells := world.shells + 1 }
  return (← world).shells

/-- A shell that has not done anything yet. -/
def fresh (name : Octets) (number : Nat) (environment : List (Octets × Octets))
    (descriptors : List (Nat × Nat)) (directory : Place) : ShellState :=
  let own := ["IFS", "OPTIND", "PPID", "PWD"].map String.toList
  let imported := environment.filter fun (name, _) => isName name ∧ ! own.contains name
  let others := defaults.filter fun (name, _) => (imported.lookup name).isNone
  let entry (isExported : Bool) (binding : Octets × Octets) : Octets × Variable :=
    (binding.1, ⟨some binding.2, isExported, false⟩)
  { name
    number
    arguments := []
    bindings :=
      (("PWD".toList, Builtin.pathOf directory) :: imported).map (entry true) ++
        others.map (entry false)
    locals := []
    functions := []
    tracked := []
    documents := []
    nextDocument := 0
    descriptors
    directory
    status := 0
    substituted := 0
    line := 0
    linesRead := 0
    speaker := none
    options := []
    traps := []
    outerTraps := []
    skip := .none
    loops := 0
    isInner := false
    leaving := none
    background := none
    jobs := []
    optionOffset := 0 }

/-- Where a shell gets its script from. -/
inductive Origin where
  | given (text : Octets)
  | input
  | file (path : Octets)

/-- What the arguments of a shell ask for: options, where the script comes from, and its name and
arguments. -/
structure Request where
  origin : Origin
  name : Octets
  arguments : List Octets

/-- Reads the arguments of a shell, and sets its options. -/
def readArguments (name : Octets) (arguments : List Octets) : Act Request := do
  let (left, _) ← Builtin.setOptions true (arguments.length + 1) arguments
  let hasScript ← hasOption 'c'
  Builtin.setOption 'c' false
  match left, hasScript with
  | [], true => fail "-c requires an argument".toList
  | text :: rest, true => return ⟨.given text, rest.head?.getD name, rest.tail⟩
  | [], false =>
      Builtin.setOption 's' true
      return ⟨.input, name, []⟩
  | path :: rest, false =>
      if ← hasOption 's' then return ⟨.input, name, left⟩
      else return ⟨.file path, path, rest⟩

/-- A text that has been read as a script, in which zero bytes count for nothing. -/
def withoutZeros (text : Octets) : Octets :=
  text.filter (· ≠ '\x00')

/-- The text of a script. -/
def scriptOf : Origin → Act Octets
  | .given text => return text
  | .input => return withoutZeros ((← readAll 0).toOption.getD [])
  | .file path => do
      let number ← Redirect.openFor .read path
      match (← world).opened[number]? with
      | some file => return withoutZeros (← remaining file)
      | none => return []

/-- Runs a shell from its arguments to its end. -/
def runShell (again : Evaluator) (name : Octets) (arguments : List Octets) : Act Nat :=
  Script.toEnd again do
    let request ← readArguments name arguments
    let text ← scriptOf request.origin
    modifyShell fun shell =>
      { shell with name := request.name, arguments := request.arguments }
    Script.runWhole again text

/-- Runs a program as a process of its own. -/
def start (invocation : Invocation) (environment : List (Octets × Octets)) (body : Act Nat) :
    Act (Except Abort Nat) := do
  let number ← newNumber
  let result ← apart do
    modifyShell fun shell =>
      { fresh invocation.name number environment shell.descriptors shell.directory with
        traps := shell.traps.filter (·.2.isEmpty) }
    body
  Script.noteChild
  return result

/-- The status of a process that has ended, and what is said about one that a signal has ended. -/
def statusOf : Except Abort Nat → Act Nat
  | .ok status => return status
  | .error (.killed signal) => do
      Builtin.tellSignal signal
      return 128 + signal
  | .error abort => throw abort

/-- The status of a shell that cannot run a program, and the reason. -/
def failureOf : LaunchError → Octets × Nat
  | .file .notFound | .file .notDirectory => ("not found".toList, 127)
  | .file .nameTooLong => (FileError.reason .nameTooLong, 127)
  | .file error => (error.reason, 126)
  | .unknownFormat => ("Exec format error".toList, 126)
  | .tooManyInterpreters => ("Too many levels of symbolic links".toList, 127)

/-- The name and the value that an argument of `env` sets. -/
def settings : List Octets → List (Octets × Octets) × List Octets
  | [] => ([], [])
  | argument :: rest =>
      match Builtin.splitAssignment argument with
      | (name, some value) =>
          let (others, left) := settings rest
          ((name, value) :: others, left)
      | (_, none) => ([], argument :: rest)

def withSettings (environment given : List (Octets × Octets)) : List (Octets × Octets) :=
  environment.filter (fun (name, _) => (given.lookup name).isNone) ++ given

/-- The path that a name of a program leads to, looked for in the search path of an environment. -/
def pathOfName (environment : List (Octets × Octets)) (name : Octets) :
    Act (Except FileError Octets) := do
  if name.contains '/' then
    return .ok name
  else
    let path := (environment.lookup "PATH".toList).getD "/bin:/usr/bin".toList
    let directories := Text.pieces (· == ':') path
    return Lookup.search (← files) name directories .notFound

/-- Runs programs that may stand for others, so many times at most. -/
def runProgram (again : Evaluator) (environment : List (Octets × Octets)) :
    Nat → Invocation → Act Nat
  | 0, _ => throw .exhausted
  | fuel + 1, ⟨program, name, arguments⟩ => do
      if program = "sh" then
        runShell again name arguments
      else if program = "env" then
        let (cleared, rest) : Bool × List Octets :=
          match arguments with
          | ['-', 'i'] :: rest | ['-'] :: rest => (true, rest)
          | _ => (false, arguments)
        let (given, call) := settings rest
        let environment := withSettings (if cleared then [] else environment) given
        match call with
        | [] =>
            discard (write 1 (environment.flatMap fun (name, value) =>
              name ++ '=' :: value ++ ['\n']))
            return 0
        | command :: arguments =>
            let refuse (reason : Octets) (status : Nat) : Act Nat := do
              Programs.complain name ('\'' :: command ++ "': ".toList ++ reason)
              return status
            match ← pathOfName environment command with
            | .error error => refuse error.reason (if error = .notFound then 127 else 126)
            | .ok path =>
                let shell ← shell
                modifyShell fun _ =>
                  fresh command shell.number environment shell.descriptors shell.directory
                match Launch.resolve (← files) command path arguments with
                | .ok invocation => runProgram again environment fuel invocation
                | .error .unknownFormat =>
                    runShell again "/bin/sh".toList (path :: arguments)
                | .error (.file error) =>
                    refuse error.reason (if error = .notFound then 127 else 126)
                | .error .tooManyInterpreters =>
                    refuse "Too many levels of symbolic links".toList 126
      else
        match Programs.find? program with
        | some run => run name arguments
        | none => return 0

/-- How many programs may stand for one another. -/
def maxPrograms : Nat := 64

/-- Runs the program at a path; a file that nothing else can be done with is a script. What ends the
process comes back, or why it could not be started. -/
def launch (again : Evaluator) (name path : Octets) (arguments : List Octets) :
    Act (Except LaunchError (Except Abort Nat)) := do
  let environment ← exported
  match Launch.resolve (← files) name path arguments with
  | .ok invocation =>
      return .ok (← start invocation environment
        (runProgram again environment maxPrograms invocation))
  | .error .unknownFormat =>
      let shell := "/bin/sh".toList
      return .ok (← start ⟨"sh", shell, []⟩ environment (runShell again shell (path :: arguments)))
  | .error error => return .error error

end HclEdit.Shell.Process
