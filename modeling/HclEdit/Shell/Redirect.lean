import HclEdit.Shell.Expansion

/-!
Redirections: descriptors are made to lead somewhere else for a command, and go back to where they
led before when it is done.
-/

namespace HclEdit.Shell.Redirect

open Act

inductive Destination where
  | file (access : Access) (path : Octets)
  | duplicate (source : Option Nat)
  | document (number : Nat)

/-- What a redirection leads to. -/
def expand (again : Evaluator) : Redirection → Act (Nat × Destination)
  | .file descriptor access path => do
      return (descriptor, .file access (← Expansion.single again path))
  | .duplicate descriptor source => do
      match ← Expansion.single again source with
      | ['-'] => return (descriptor, .duplicate none)
      | text =>
          match text, Text.natural? text with
          | [_], some number => return (descriptor, .duplicate (some number))
          | _, _ =>
              modifyShell fun shell => { shell with line := shell.linesRead }
              fail "Syntax error: Bad fd number".toList
  | .document descriptor number => return (descriptor, .document number)

def openFailure (access : Access) (path : Octets) (error : FileError) : Octets :=
  let reading := access = .read
  let reason : Text :=
    match error with
    | .notFound | .notDirectory =>
        if reading then "No such file".toList else "Directory nonexistent".toList
    | other => other.reason
  (if reading then "cannot open " else "cannot create ").toList ++ path ++ ": ".toList ++ reason

/-- Opens the file of a redirection. -/
def openFor (access : Access) (path : Octets) : Act Nat := do
  let exists? :=
    match (← files).find (Octets.toText path) with
    | .ok (.file _ _) => true
    | _ => false
  if access = .write && exists? && (← hasOption 'C') then
    fail ("cannot create ".toList ++ path ++ ": File exists".toList)
  match ← openPath path (if access = .overwrite then .write else access) with
  | .ok number => return number
  | .error error => fail (openFailure access path error)

/-- Makes a descriptor lead to its destination. -/
def apply (again : Evaluator) (descriptor : Nat) : Destination → Act Unit
  | .file access path => do
      setDescriptor descriptor (some (← openFor access path))
  | .duplicate none => setDescriptor descriptor none
  | .duplicate (some source) => do
      if source ≠ descriptor then
        match ← opened? source with
        | some number => setDescriptor descriptor (some number)
        | none => fail (Text.decimal source ++ ": Bad file descriptor".toList)
  | .document number => do
      let text ← Expansion.document again number
      let pipe := (← world).pipes.size
      modifyWorld fun world => { world with pipes := world.pipes.push text }
      setDescriptor descriptor (some (← newFile (.pipe pipe) .read))

def applyAll (again : Evaluator) (destinations : List (Nat × Destination)) : Act Unit :=
  destinations.forM fun (descriptor, destination) => apply again descriptor destination

/-- Where descriptors lead. -/
abbrev Leads := List (Nat × Option Nat)

def leadsOf (destinations : List (Nat × Destination)) : Act Leads :=
  destinations.mapM fun (descriptor, _) => return (descriptor, ← opened? descriptor)

def restore (leads : Leads) : Act Unit :=
  leads.forM fun (descriptor, number) => setDescriptor descriptor number

/-- Runs an action that gives up only because of a mistake that has been told. -/
def attempt (action : Act Unit) : Act Bool := do
  match ← outcome action with
  | .ok () => return true
  | .error .failure => return false
  | .error abort => throw abort

/-- Runs an action with redirections, which are undone after it unless they are to stay. Nothing
comes back if one of them fails. -/
def during {α : Type} (again : Evaluator) (redirections : List Redirection) (stays : Bool)
    (action : Act α) : Act (Option α) := do
  let destinations ← redirections.mapM (expand again)
  let leads ← leadsOf destinations
  let run : Act (Option α) := do
    if ← attempt (applyAll again destinations) then
      return some (← action)
    else
      return none
  match ← outcome run with
  | .ok result =>
      if ! stays || result.isNone then restore leads
      return result
  | .error abort =>
      restore leads
      throw abort

end HclEdit.Shell.Redirect
