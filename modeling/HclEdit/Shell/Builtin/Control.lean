import HclEdit.Shell.Builtin.Basic
import HclEdit.Shell.Script

/-!
The commands that leave loops, functions and the shell, and those about signals and jobs.
-/

namespace HclEdit.Shell.Builtin

open Act

/-- Leaves so many loops, or goes on with the next round of the last of them. -/
def leaveLoops (skip : Nat → Skip) (arguments : List Octets) : Act Nat := do
  let count ←
    match arguments with
    | [] => pure 1
    | text :: _ => do
        let count ← natural text
        if count = 0 then illegalNumber text else pure count
  let count := min count (← shell).loops
  if count ≠ 0 then
    modifyShell fun shell => { shell with skip := skip count }
  return 0

def leaveFunction (arguments : List Octets) : Act Nat := do
  let status ← arguments.head?.elim (return (← shell).status) natural
  modifyShell fun shell => { shell with skip := .returning }
  return status

def exit (arguments : List Octets) : Act Nat := do
  let shell ← shell
  setStatus (← arguments.head?.elim (pure (shell.leaving.getD shell.status)) natural)
  throw .finish

/-! Traps. -/

def trapListing (traps : List (Nat × Octets)) : Octets :=
  (List.range (Signal.last + 1)).flatMap fun signal =>
    match traps.lookup signal with
    | some text => "trap -- ".toList ++ quote text ++ ' ' :: Signal.nameOf signal ++ ['\n']
    | none => []

/-- Sets what is run for signals; nothing stands for what they do on their own. -/
def setTraps (action : Option Octets) : List Octets → Act Nat
  | [] => return 0
  | name :: names => do
      match Signal.ofText? name with
      | none =>
          discard (write 2 ("trap: ".toList ++ name ++ ": bad trap\n".toList))
          return 1
      | some signal =>
          modifyShell fun shell =>
            let others := shell.traps.filter (·.1 ≠ signal)
            { shell with traps := action.elim others fun text => (signal, text) :: others }
          setTraps action names

def trap (arguments : List Octets) : Act Nat := do
  match ← withoutOptions arguments with
  | [] => put (trapListing (← shell).traps)
  | [name] => setTraps none [name]
  | action :: names => setTraps (if action = ['-'] then none else some action) names

/-! Signals to processes. -/

def killUsage : Octets :=
  ("Usage: kill [-s sigspec | -signum | -sigspec] [pid | job]... or\n" ++
    "kill -l [exitstatus]").toList

def signalOf? (text : Octets) : Option Nat :=
  (Signal.ofText? text).filter fun signal => signal ≠ 0 ∨ (Text.natural? text).isSome

/-- Sends a signal to the shell that is running, or to the one it is a part of. A trap is run when
the command that is running is done. -/
def signalShell (signal : Nat) : Act Unit := do
  let traps := Script.trapsOf (← shell)
  let caught := if signal = 9 then none else traps.lookup signal
  if signal ≠ 0 ∧ caught ≠ some [] then
    Script.sendSignal signal
    Script.sufferSignals

/-- Sends a signal to a job; only one that would have ended it leaves a trace. -/
def signalJob (number signal : Nat) : Act Unit :=
  modifyShell fun shell =>
    let change (job : Job) : Job :=
      if job.number = number ∧ Signal.effectOf signal ≠ .none then
        { job with status := 128 + signal, signal := some signal }
      else job
    { shell with jobs := shell.jobs.map change }

/-- Gives up because jobs are not known by anything but their numbers. -/
def noJob {α : Type} (name : Octets) : Act α :=
  match name with
  | ['%'] | ['%', '%'] | ['%', '+'] => fail "No current job".toList
  | ['%', '-'] => fail "No previous job".toList
  | _ => fail ("No such job: ".toList ++ name)

/-- Sends a signal to each of the processes; tells with its status whether all of them are there. -/
def sendTo (signal : Nat) : List Octets → Act Nat
  | [] => return 0
  | target :: rest => do
      if target.head? = some '%' then
        noJob target
      let isGroup := target.head? = some '-'
      let number ← natural (if isGroup then target.tail else target)
      let shell ← shell
      let status ←
        if number = 0 ∨ (number = shell.number ∧ ! isGroup) then
          signalShell signal
          pure 0
        else if shell.jobs.any (·.number = number) ∧ ! isGroup then
          signalJob number signal
          pure 0
        else
          warn "No such process\n".toList
          pure 1
      return max status (← sendTo signal rest)

def signalListing : List Octets → Act Octets
  | [] =>
      let names := ((List.range (Signal.last + 1)).drop 1).map Signal.nameOf
      return (['0'] :: names).flatMap (· ++ ['\n'])
  | text :: _ => do
      let number ← natural text
      let signal := if 128 < number then number - 128 else number
      if 0 < signal ∧ signal ≤ Signal.last then
        return Signal.nameOf signal ++ ['\n']
      else
        fail ("invalid signal number or exit status: ".toList ++ text)

def kill (arguments : List Octets) : Act Nat := do
  match arguments with
  | [] => fail killUsage
  | first :: rest =>
      let given := if first.head? = some '-' then signalOf? first.tail else none
      match given with
      | some signal => send signal rest
      | none =>
          let (options, targets) ←
            if first.head? = some '-' then readOptions "l" "s" arguments
            else pure ([], arguments)
          let named ← options.filterM fun (letter, _) => pure (letter = 's')
          let signals ← named.mapM fun (_, name) =>
            match signalOf? name with
            | some signal => pure signal
            | none => fail ("invalid signal number or name: ".toList ++ name)
          if options.any (·.1 = 'l') then
            if ! signals.isEmpty && ! targets.isEmpty then fail killUsage
            else put (← signalListing targets)
          else
            send (signals.getLast?.getD 15) targets
where
  send (signal : Nat) (targets : List Octets) : Act Nat :=
    if targets.isEmpty then fail killUsage else sendTo signal targets

/-! Jobs. -/

/-- All jobs have been run to their ends, and none is known by a name. -/
def jobs (arguments : List Octets) : Act Nat := do
  let (_, names) ← readOptions "lp" "" arguments
  names.head?.elim (return 0) noJob

/-- Says what has ended a process, if that is worth telling. -/
def tellSignal (signal : Nat) : Act Unit := do
  match Signal.effectOf signal with
  | .ends notice => discard (write 2 (notice.toList ++ ['\n']))
  | _ => return

/-- The status of the last of some jobs, all of which have been run to their ends. -/
def waitFor : List Octets → Nat → Act Nat
  | [], status => return status
  | target :: rest, _ => do
      if target.head? = some '%' then
        noJob target
      let number ← natural target
      match (← shell).jobs.find? (·.number = number) with
      | none => waitFor rest 127
      | some job =>
          job.signal.forM tellSignal
          waitFor rest job.status

def wait (arguments : List Octets) : Act Nat := do
  waitFor (← withoutOptions arguments) 0

end HclEdit.Shell.Builtin
