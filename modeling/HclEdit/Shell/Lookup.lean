import HclEdit.Shell.Command.Reader
import HclEdit.Shell.Machine

/-!
What the name of a command stands for: a function, a command that the shell itself carries out, or a
program that is looked for in the directories of the search path.
-/

namespace HclEdit.Shell

inductive Meaning where
  | function (function : Function)
  | builtin (isSpecial : Bool)
  | program (path : Except FileError Octets)

namespace Lookup

open Act Command

/-- The commands of the shell that are not special. -/
def regularNames : List Octets :=
  ["[", "alias", "bg", "cd", "chdir", "command", "echo", "false", "fg", "getopts", "hash", "jobs",
    "kill", "printf", "pwd", "read", "test", "true", "type", "ulimit", "umask", "unalias",
    "wait"].map String.toList

/-- The path of a name in a directory of a search path; the directory is left out if it is empty. -/
def pathIn (directory name : Octets) : Octets :=
  if directory.isEmpty then name else directory ++ '/' :: name

/-- Looks for a program in directories, one after the other. The last error that tells more than
that nothing is there is remembered. -/
def search (files : FileSystem) (name : Octets) :
    List Octets → FileError → Except FileError Octets
  | [], error => .error error
  | directory :: rest, error =>
      let path := pathIn directory name
      match files.find (Octets.toText path) with
      | .error .notFound | .error .notDirectory => search files name rest error
      | .error other => search files name rest other
      | .ok .directory => search files name rest .accessDenied
      | .ok (.file _ executable) =>
          if executable then .ok path else search files name rest .accessDenied
      | .ok (.program _) => .ok path

def defaultPath : Octets :=
  "/usr/local/sbin:/usr/local/bin:/usr/sbin:/usr/bin:/sbin:/bin".toList

def searchPath (useDefault : Bool) : Act (List Octets) := do
  let path ← if useDefault then pure (some defaultPath) else valueOf? "PATH".toList
  return Text.pieces (· == ':') (path.getD [])

/-- The path of the program that a name stands for. -/
def programOf (name : Octets) (useDefault : Bool) : Act (Except FileError Octets) := do
  if name.contains '/' then
    return .ok name
  else
    let found := search (← files) name (← searchPath useDefault) .notFound
    if found.toOption.isSome then
      modifyShell fun shell => { shell with tracked := name :: shell.tracked }
    return found

/-- What a name stands for; functions can be left out. -/
def meaningOf (name : Octets) (withFunctions useDefault : Bool) : Act Meaning := do
  let shell ← shell
  match if withFunctions then shell.functions.lookup name else none with
  | some function => return .function function
  | none =>
      if specialNames.contains name then return .builtin true
      else if regularNames.contains name then return .builtin false
      else return .program (← programOf name useDefault)

/-- Describes what a name stands for: at length, or just by what it would take to run it. -/
def describe (name : Octets) (atLength useDefault : Bool) : Act (Octets × Nat) := do
  let told (text : Octets) : Octets × Nat :=
    ((if atLength then name ++ text else name) ++ ['\n'], 0)
  if reservedWords.contains name then
    return told " is a shell keyword".toList
  let isTracked := (← shell).tracked.contains name
  match ← meaningOf name true useDefault with
  | .function _ => return told " is a shell function".toList
  | .builtin true => return told " is a special shell builtin".toList
  | .builtin false => return told " is a shell builtin".toList
  | .program (.error _) => return missing
  | .program (.ok path) =>
      let said := if isTracked then " is a tracked alias for ".toList else " is ".toList
      if (← files).find (Octets.toText path) matches .ok _ then
        return ((if atLength then name ++ said ++ path else path) ++ ['\n'], 0)
      else
        return missing
where
  missing : Octets × Nat :=
    (if atLength then name ++ ": not found\n".toList else [], 127)

end Lookup

end HclEdit.Shell
