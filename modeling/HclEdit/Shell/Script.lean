import HclEdit.Shell.Command.Reader
import HclEdit.Shell.Machine
import HclEdit.Shell.Signal

/-!
Running text as a script, line by line: a line is read when those before it have been run. Commands
are run by the evaluator, which is passed in. A part of a script that runs in a subshell leaves the
state of the shell as it was.
-/

namespace HclEdit.Shell

/-- Runs a command and gives its status. With `tested` a failure does not end the script even if
failures do. -/
abbrev Evaluator := Command → (tested : Bool) → Act Nat

namespace Script

open Act

def sourceOf (text : Octets) : Act Source := do
  return ⟨text, 1, none, [], [], (← shell).nextDocument⟩

/-- Reads the next line of a script; its documents are kept for when it is run. -/
def nextLine (source : Source) : Act (Command.Line × Source) := do
  match
    Command.readLine { source with documents := [], nextDocument := (← shell).nextDocument }
  with
  | .error fault =>
      modifyShell fun shell => { shell with line := fault.line }
      fail fault.message
  | .ok (line, source) =>
      modifyShell fun shell =>
        { shell with
          linesRead := source.line
          documents := source.documents ++ shell.documents
          nextDocument := source.nextDocument }
      return (line, source)

/-- Runs the lines of a script, unless one of them asks for what follows to be passed over. -/
def runLines (again : Evaluator) (tested : Bool) : Nat → Source → Nat → Act Nat
  | 0, _, status => return status
  | fuel + 1, source, status => do
      match ← nextLine source with
      | (.finish, _) => return status
      | (.command none, source) => runLines again tested fuel source status
      | (.command (some command), source) =>
          let status ← again command tested
          if (← shell).skip = .none then runLines again tested fuel source status
          else return status

/-- Runs a text as a script. -/
def run (again : Evaluator) (tested : Bool) (text : Octets) : Act Nat := do
  let before := (← shell).linesRead
  let status ← runLines again tested (text.length + 1) (← sourceOf text) 0
  modifyShell fun shell => { shell with linesRead := before }
  return status

/-- Runs a text as a script of its own, in which functions may be left. -/
def runWhole (again : Evaluator) (text : Octets) : Act Nat := do
  let status ← run again false text
  modifyShell fun shell =>
    { shell with skip := if shell.skip = .returning then .none else shell.skip }
  return status

/-- Runs what has been asked for at the end of a shell. The status stays as it was unless the end is
asked for with another one. -/
def atEnd (again : Evaluator) : Act Unit := do
  let before ← shell
  match before.traps.lookup 0 with
  | none => return
  | some text =>
      modifyShell fun shell =>
        { shell with
          traps := shell.traps.filter (·.1 ≠ 0)
          skip := .none
          leaving := some before.status }
      match ← outcome (run again false text) with
      | .error .finish | .error .failure => return
      | .ok _ => setStatus before.status
      | .error abort => throw abort

/-- Runs a whole shell to its end. -/
def toEnd (again : Evaluator) (body : Act Nat) : Act Nat := do
  match ← outcome body with
  | .ok status => setStatus status
  | .error .failure | .error .finish => pure ()
  | .error abort => throw abort
  atEnd again
  return (← shell).status

/-- The traps of a shell, or of the one that it is a part of. -/
def trapsOf (shell : ShellState) : List (Nat × Octets) :=
  if shell.isInner then shell.outerTraps else shell.traps

/-- Sends a signal to the shell that is running, or to the one it is a part of. -/
def sendSignal (signal : Nat) : Act Unit :=
  modify fun machine =>
    let arrived := machine.world.signals ++ [(machine.shell.number, signal)]
    { machine with world := { machine.world with signals := arrived } }

/-- Lets the signals do what they do on their own that have arrived and are not caught. -/
def sufferSignals : Act Unit := do
  let shell ← shell
  if ! shell.isInner then
    let traps := shell.traps.filter (·.1 ≠ 9)
    let fatal := (← world).signals.find? fun (number, signal) =>
      number = shell.number ∧ (traps.lookup signal).isNone ∧ Signal.effectOf signal ≠ .none
    match fatal with
    | some (_, signal) => throw (.killed signal)
    | none => return

/-- Tells a shell that a part of it has ended, if it wants to know. -/
def noteChild : Act Unit := do
  let shell ← shell
  if ! shell.isInner && ((shell.traps.lookup 17).any fun text => ! text.isEmpty) then
    sendSignal 17

/-- Runs a part of a script in a subshell, which inherits no traps but those that ignore a
signal. -/
def inSubshell (again : Evaluator) (body : Act Nat) : Act Nat := do
  let result ← apart do
    modifyShell fun shell =>
      { shell with
        isInner := true
        outerTraps := trapsOf shell
        traps := shell.traps.filter (·.2.isEmpty)
        leaving := none }
    toEnd again body
  sufferSignals
  noteChild
  match result with
  | .ok status => return status
  | .error abort => throw abort

/-- Runs the trap of a signal. The status stays as it was unless a function is left. -/
def takeSignal (again : Evaluator) (signal : Nat) : Act Unit := do
  let before ← shell
  match before.traps.lookup signal with
  | none => return
  | some text =>
      modifyShell fun shell =>
        { shell with leaving := some (before.leaving.getD before.status) }
      discard (run again false text)
      modifyShell fun shell =>
        { shell with
          leaving := before.leaving
          status := if shell.skip = .returning then shell.status else before.status }

/-- Runs the traps of the signals that have arrived, in the order of their numbers. -/
def takeSignals (again : Evaluator) : Act Unit := do
  sufferSignals
  let shell ← shell
  let arrived := (← world).signals.filter (·.1 = shell.number)
  if arrived.isEmpty || shell.isInner || shell.skip ≠ .none then
    return
  modifyWorld fun world =>
    { world with signals := world.signals.filter (·.1 ≠ shell.number) }
  for signal in (List.range (Signal.last + 1)).filter fun signal => arrived.any (·.2 = signal) do
    takeSignal again signal

end Script

end HclEdit.Shell
