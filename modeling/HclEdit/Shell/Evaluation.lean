import HclEdit.Shell.Evaluation.Process

/-!
Running the commands of scripts. A command in a subshell leaves no trace but its status, its output
and the files it has changed; the stages of a pipeline are run one after the other, each with the
output of the one before it.
-/

namespace HclEdit.Shell.Evaluation

open Act

/-! Simple commands. -/

/-- Sets the variables in front of a command; what they were is kept if they are to go back. The
assignments come back as they would be written. -/
def assign (again : Evaluator) (locally exports : Bool) (assignments : List Word) :
    Act (List Octets) :=
  assignments.mapM fun word => do
    match word.assignment? with
    | none => return []
    | some (name, value) =>
        let text ← Expansion.value again value
        if locally then Builtin.saveLocally name
        setVariable name text (locally || exports)
        return name ++ '=' :: text

/-- Undoes the changes to local variables, down to so many levels of them. -/
def dropLocals (depth : Nat) : Act Unit := do
  let locals := (← shell).locals
  let extra := locals.take (locals.length - depth)
  modifyShell fun shell => { shell with locals := locals.drop extra.length }
  extra.flatten.forM fun (name, entry) => putVariable name entry

/-- Shows a command that is about to be run. -/
def trace (errors : Option Nat) (words : List Octets) : Act Unit := do
  if ← hasOption 'x' then
    let mark := (← valueOf? "PS4".toList).getD []
    errors.forM fun number => discard (writeFile number (mark ++ joinWords words ++ ['\n']))

/-- Runs a command of the shell. A mistake in one that is not special does not end the shell. -/
def runBuiltin (name : Octets) (isSpecial : Bool) (body : Act Nat) : Act Nat := do
  let before := (← shell).speaker
  modifyShell fun shell => { shell with speaker := some name }
  let result ← outcome body
  modifyShell fun shell => { shell with speaker := before }
  match result with
  | .ok status => return status
  | .error .failure => if isSpecial then throw .failure else return (← shell).status
  | .error abort => throw abort

/-- Runs a function with parameters of its own. -/
def callFunction (again : Evaluator) (tested : Bool) (function : Function)
    (arguments : List Octets) : Act Nat := do
  let before ← shell
  modifyShell fun shell => { shell with arguments, loops := 0 }
  let result ← outcome (again function.body tested)
  modifyShell fun shell =>
    { shell with
      arguments := before.arguments
      loops := before.loops
      skip := if shell.skip = .returning then .none else shell.skip }
  match result with
  | .ok status => return status
  | .error abort => throw abort

/-- Runs the program that a name stands for. What ends it comes back, or why it cannot be run, with
the status for that. -/
def runNamed (again : Evaluator) (name : Octets) (useDefault : Bool) (arguments : List Octets) :
    Act (Except (Octets × Nat) (Except Abort Nat)) := do
  match ← Lookup.programOf name useDefault with
  | .ok path => return (← Process.launch again name path arguments).mapError Process.failureOf
  | .error error => return .error (Process.failureOf (.file error))

/-- Runs a program as a child. Names that are not found in the search path all have one status. -/
def callProgram (again : Evaluator) (name : Octets) (useDefault : Bool)
    (arguments : List Octets) : Act Nat := do
  match ← runNamed again name useDefault arguments with
  | .ok ended => Process.statusOf ended
  | .error (reason, status) =>
      warn (name ++ ": ".toList ++ reason)
      return if (← Lookup.programOf name useDefault).toOption.isSome then status else 127

/-- Runs a program in place of the shell. -/
def replaceBy (again : Evaluator) : List Octets → Act Nat
  | [] => return 0
  | name :: arguments => do
      match ← runNamed again name false arguments with
      | .ok (.ok status) =>
          modifyShell fun shell => { shell with traps := shell.traps.filter (·.1 ≠ 0) }
          setStatus status
      | .ok (.error abort) => throw abort
      | .error (reason, status) =>
          warn (name ++ ": ".toList ++ reason)
          setStatus status
      throw .finish

/-- The path of a script that is read by its name. -/
def scriptPath (name : Octets) : Act Octets := do
  if name.contains '/' then
    return name
  else
    let files ← files
    let paths := (← Lookup.searchPath false).map (Lookup.pathIn · name)
    match paths.find? fun path => files.isFile (Octets.toText path) with
    | some path => return path
    | none => fail (name ++ ": not found".toList)

/-- Runs a file as a part of the script. -/
def source (again : Evaluator) (arguments : List Octets) : Act Nat := do
  match ← Builtin.withoutOptions arguments with
  | [] => return 0
  | name :: _ =>
      let path ← scriptPath name
      let text ← Process.scriptOf (.file path)
      modifyShell fun shell => { shell with speaker := some path }
      Script.runWhole again text

/-- Runs the command of the shell that a call names. -/
def callBuiltin (again : Evaluator) (tested isSpecial : Bool) (call : Call) : Act Nat := do
  match call.fields with
  | [] => return 0
  | name :: arguments =>
      runBuiltin name isSpecial <|
        if call.asks then Builtin.about call.fields
        else
          match String.ofList name with
          | "eval" => Script.run again tested (joinWords arguments)
          | "." => source again arguments
          | "exec" => do replaceBy again (← Builtin.withoutOptions arguments)
          | _ =>
              match Builtin.find? name with
              | some run => run arguments
              | none => return 0

/-- What a simple command comes down to. -/
inductive Action where
  | nothing
  | builtin (call : Call) (isSpecial : Bool)
  | function (function : Function) (arguments : List Octets)
  | program (name : Octets) (useDefault : Bool) (arguments : List Octets)

/-- Whether variables that are set in front of a command go back to what they were after it. -/
def Action.isLocal : Action → Bool
  | nothing | builtin _ true => false
  | _ => true

def Action.isReplacing : Action → Bool
  | builtin call _ => call.fields.head? = some "exec".toList
  | _ => false

/-- What a call comes down to; only without `command` in front is a mistake in a special command
the end of the shell. -/
def actionOf : Option Call → Act Action
  | none => return .nothing
  | some call => do
      match call.fields with
      | [] => return .nothing
      | name :: arguments =>
          if call.asks then return .builtin call false
          else
            match ← Lookup.meaningOf name call.withFunctions false with
            | .function function => return .function function arguments
            | .builtin isSpecial => return .builtin call (isSpecial && call.withFunctions)
            | _ => return .program name call.useDefault arguments

def perform (again : Evaluator) (tested : Bool) : Action → Act Nat
  | .nothing => return (← shell).substituted
  | .builtin call isSpecial => callBuiltin again tested isSpecial call
  | .function function arguments => callFunction again tested function arguments
  | .program name useDefault arguments => callProgram again name useDefault arguments

/-- Runs a simple command: its words are expanded, then it is redirected, then variables are set. -/
def runSimple (again : Evaluator) (tested : Bool) (line : Nat)
    (assignments words : List Word) (redirections : List Redirection) : Act Nat := do
  modifyShell fun shell => { shell with line, substituted := 0 }
  let call ← Call.ofWords again words
  let action ← actionOf call
  let depth := (← shell).locals.length
  if action.isLocal then
    modifyShell fun shell => { shell with locals := [] :: shell.locals }
  let errors ← opened? 2
  let fields := call.elim [] (·.fields)
  let run : Act Nat := do
    let exports := action.isReplacing && 1 < fields.length
    let set ← assign again action.isLocal exports assignments
    trace errors (set ++ fields)
    perform again tested action
  let result ← outcome (Redirect.during again redirections action.isReplacing run)
  dropLocals depth
  match result with
  | .ok (some status) => return status
  | .ok none =>
      match action with
      | .builtin _ true => throw .failure
      | _ => return 2
  | .error abort => throw abort

/-! Commands in subshells. -/

def runSubshell (again : Evaluator) (tested : Bool) (line : Nat) (body : Command)
    (redirections : List Redirection) : Act Nat := do
  modifyShell fun shell => { shell with line }
  let destinations ← redirections.mapM (Redirect.expand again)
  Script.inSubshell again do
    Redirect.applyAll again destinations
    again body tested

/-- Runs a command to its end before the script goes on; it has nothing to read. -/
def runBackground (again : Evaluator) (body : Command) : Act Nat := do
  let number ← Process.newNumber
  let status ← Script.inSubshell again do
    setDescriptor 0 (some (← newFile .nothing .read))
    again body false
  modifyShell fun shell =>
    { shell with background := some number, jobs := ⟨number, status, none⟩ :: shell.jobs }
  return 0

def runStages (again : Evaluator) (tested : Bool) : Option Nat → List Command → Act Nat
  | _, [] => return 0
  | input, stage :: rest => do
      let start (output : Option Nat) : Act Nat :=
        Script.inSubshell again do
          input.forM fun number => setDescriptor 0 (some number)
          output.forM fun number => setDescriptor 1 (some number)
          again stage tested
      match rest with
      | [] => start none
      | _ =>
          let pipe := (← world).pipes.size
          modifyWorld fun world => { world with pipes := world.pipes.push [] }
          discard (start (some (← newFile (.pipe pipe) .write)))
          runStages again tested (some (← newFile (.pipe pipe) .read)) rest

/-! Loops. -/

/-- What becomes of commands that are passed over at the end of a round of a loop. -/
def Skip.afterRound : Skip → Skip
  | .leaving (loops + 2) => .leaving (loops + 1)
  | .continuing (loops + 2) => .continuing (loops + 1)
  | .returning => .returning
  | _ => .none

/-- Ends a round of a loop, and tells whether the loop is done with. -/
def endRound : Act Bool := do
  let skip := (← shell).skip
  let after := Skip.afterRound skip
  modifyShell fun shell => { shell with skip := after }
  return match skip with
    | .leaving _ => true
    | _ => after ≠ .none

/-- Runs the rounds of a loop. -/
def runLoop (again : Evaluator) (tested stopsOn : Bool) (test body : Command) :
    Nat → Nat → Act Nat
  | 0, _ => throw .exhausted
  | fuel + 1, status => do
      let found ← again test true
      let skip := (← shell).skip
      if skip ≠ .none then
        if ← endRound then
          return if skip = .returning then found else status
        else
          runLoop again tested stopsOn test body fuel status
      else if (found = 0) = stopsOn then
        return status
      else
        let status ← again body tested
        if ← endRound then return status
        else runLoop again tested stopsOn test body fuel status

def runIteration (again : Evaluator) (tested : Bool) (name : Octets) (body : Command) :
    List Octets → Nat → Act Nat
  | [], status => return status
  | field :: fields, _ => do
      setVariable name field false
      let status ← again body tested
      if ← endRound then return status
      else runIteration again tested name body fields status

def inLoop (loop : Act Nat) : Act Nat := do
  modifyShell fun shell => { shell with loops := shell.loops + 1 }
  let status ← loop
  modifyShell fun shell => { shell with loops := shell.loops - 1 }
  return status

/-! Choices. -/

def fitsSome (again : Evaluator) (subject : Octets) : List Word → Act Bool
  | [] => return false
  | pattern :: patterns => do
      if Glob.fits (← Expansion.pattern again pattern) subject then return true
      else fitsSome again subject patterns

def runChoice (again : Evaluator) (tested : Bool) (subject : Octets) :
    List (List Word × Option Command) → Act Nat
  | [] => return 0
  | (patterns, body) :: branches => do
      if ← fitsSome again subject patterns then body.elim (return 0) (again · tested)
      else runChoice again tested subject branches

/-! All commands. -/

def skipping : Act Bool :=
  return (← shell).skip ≠ .none

/-- Runs a command up to its status, with a bound on the rounds of loops, and tells whether a
failure of it may end the script. -/
def step (again : Evaluator) (rounds : Nat) (tested : Bool) : Command → Act Bool
  | .simple line assignments words redirections => do
      setStatus (← runSimple again tested line assignments words redirections)
      return true
  | .pipeline stages => do
      setStatus (← runStages again tested none stages)
      return true
  | .background body => do
      setStatus (← runBackground again body)
      return true
  | .redirected line body redirections => do
      modifyShell fun shell => { shell with line }
      match ← Redirect.during again redirections false (again body tested) with
      | some status =>
          setStatus status
          return false
      | none => return true
  | .subshell line body redirections => do
      setStatus (← runSubshell again tested line body redirections)
      return true
  | .sequence first second => do
      discard (again first tested)
      if ! (← skipping) then
        discard (again second tested)
      return false
  | .both first second => do
      let status ← again first true
      if status = 0 && ! (← skipping) then
        discard (again second tested)
      return false
  | .either first second => do
      let status ← again first true
      if status ≠ 0 && ! (← skipping) then
        discard (again second tested)
      return false
  | .negation body => do
      let status ← again body true
      setStatus (if status = 0 then 1 else 0)
      return false
  | .conditional test yes no => do
      let status ← again test true
      if ! (← skipping) then
        if status = 0 then discard (again yes tested)
        else
          match no with
          | some no => discard (again no tested)
          | none => setStatus 0
      return false
  | .loop stopsOn test body => do
      setStatus (← inLoop (runLoop again tested stopsOn test body rounds 0))
      return false
  | .iteration line name words body => do
      modifyShell fun shell => { shell with line }
      let fields ← Expansion.allFields again words
      setStatus (← inLoop (runIteration again tested name body fields 0))
      return false
  | .choice line subject branches => do
      modifyShell fun shell => { shell with line }
      let subject ← Expansion.single again subject
      setStatus (← runChoice again tested subject branches)
      return false
  | .definition line name body => do
      modifyShell fun shell =>
        { shell with
          functions := (name, ⟨line, body⟩) :: shell.functions.filter (·.1 ≠ name) }
      setStatus 0
      return false

/-- Runs commands that are nested to so many levels, with a bound on the rounds of loops. Signals
are taken before and after each of them, and a failure that nothing has been made of ends the script
if it has asked for that. -/
def evaluate (rounds : Nat) : Nat → Evaluator
  | 0, _, _ => throw .exhausted
  | depth + 1, command, tested => do
      if ← hasOption 'n' then
        return (← shell).status
      let again := evaluate rounds depth
      Script.takeSignals again
      let mayEnd ← step again rounds tested command
      Script.takeSignals again
      let status := (← shell).status
      if mayEnd && ! tested && status ≠ 0 && (← hasOption 'e') then
        throw .finish
      return status

end HclEdit.Shell.Evaluation
