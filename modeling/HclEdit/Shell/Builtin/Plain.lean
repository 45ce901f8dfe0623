import HclEdit.Shell.Builtin.Basic
import HclEdit.Shell.Condition
import HclEdit.Shell.Format
import HclEdit.Shell.Lookup

/-!
The commands that write texts, answer questions, and change the working directory.
-/

namespace HclEdit.Shell.Builtin

open Act

def echo (arguments : List Octets) : Act Nat :=
  put (Shell.echo arguments)

def printf (arguments : List Octets) : Act Nat := do
  match ← withoutOptions arguments with
  | [] => fail "usage: printf format [arg ...]".toList
  | format :: arguments =>
      let (output, warnings, failure) := Shell.printf format arguments
      warnings.forM warn
      failure.forM warn
      let status ← put output
      return if failure.isSome then 2 else if warnings.isEmpty then status else 1

/-- What is known about the files that a condition asks about. -/
def answers : Act Condition.Answers := do
  let files ← files
  return {
    entry? := fun path => (files.find (Octets.toText path)).toOption
    isDevice := fun path =>
      match files.locate (Octets.toText path) with
      | .ok place => isNull place || (specialDescriptor? place).isSome
      | .error _ => false
    isSame := fun left right =>
      match files.locate (Octets.toText left), files.locate (Octets.toText right) with
      | .ok first, .ok second => first = second && (files.entryAt? first).isSome
      | _, _ => false }

def test (words : List Octets) : Act Nat := do
  match Condition.holds (← answers) words with
  | .ok holds => return if holds then 0 else 1
  | .error message => fail message

/-- A condition in brackets; only the first character of the last word is looked at. -/
def bracket (words : List Octets) : Act Nat := do
  if words.getLast?.bind List.head? = some ']' then test words.dropLast
  else fail "missing ]".toList

def pathOf (place : Place) : Octets :=
  if place.isEmpty then ['/'] else Octets.ofText (FileSystem.pathOf place)

def pwd (arguments : List Octets) : Act Nat := do
  discard (readOptions "LP" "" arguments)
  put (pathOf (← shell).directory ++ ['\n'])

/-- Goes to a directory, with parent directories taken from the path alone. -/
def enter (path : Octets) : Act Unit := do
  let files ← files
  let text := Octets.toText path
  let place := (FileSystem.names text).foldl (fun (place : Place) name =>
    if name = [] ∨ name = ['.'] then place
    else if name = ['.', '.'] then place.dropLast
    else place ++ [name]) (files.origin text)
  if files.entryAt? place ≠ some .directory then
    fail ("can't cd to ".toList ++ path)
  let old := pathOf (← shell).directory
  modifyShell fun shell => { shell with directory := place }
  setVariable "OLDPWD".toList old true
  setVariable "PWD".toList (pathOf place) true

def changeDirectory (arguments : List Octets) : Act Nat := do
  let (_, left) ← readOptions "LP" "" arguments
  match left with
  | [] =>
      enter ((← valueOf? "HOME".toList).getD [])
      return 0
  | ['-'] :: _ =>
      enter ((← valueOf? "OLDPWD".toList).getD [])
      put (pathOf (← shell).directory ++ ['\n'])
  | path :: _ =>
      enter path
      return 0

/-- Describes names; the status tells whether all of them stand for something. -/
def describeAll : List Octets → Act (Octets × Nat)
  | [] => return ([], 0)
  | name :: names => do
      let (text, status) ← Lookup.describe name true false
      let (others, last) ← describeAll names
      return (text ++ others, max status last)

def type (arguments : List Octets) : Act Nat := do
  let (text, status) ← describeAll arguments
  discard (put text)
  return status

/-- Whether a text changes permissions by their letters: parts with the people, a sign and what they
are permitted. -/
def isMode (text : Octets) : Bool :=
  (Text.pieces (· == ',') text).all fun part =>
    let rest := part.dropWhile "ugoa".toList.contains
    rest.head?.all "+-=".toList.contains && rest.all "+-=rwxXstugo".toList.contains

def umask (arguments : List Octets) : Act Nat := do
  let (options, left) ← readOptions "S" "" arguments
  match left with
  | [] => put (if options.isEmpty then "0022\n" else "u=rwx,g=rx,o=rx\n").toList
  | mask :: _ =>
      if mask.head?.any isDigit then
        if mask.all isOctal then return 0 else illegalNumber mask
      else if isMode mask then return 0
      else fail ("Illegal mode: ".toList ++ mask)

def ulimit (arguments : List Octets) : Act Nat := do
  let (_, left) ← readOptions "HSatfdsmcnpvlewr" "" arguments
  if left.isEmpty then put "unlimited\n".toList else return 0

def times (_ : List Octets) : Act Nat :=
  let line := "0m0.000000s 0m0.000000s\n".toList
  put (line ++ line)

def hash (arguments : List Octets) : Act Nat := do
  let (options, names) ← readOptions "rv" "" arguments
  if options.any (·.1 = 'r') then
    modifyShell fun shell => { shell with tracked := [] }
  let mut status := 0
  for name in names do
    match ← Lookup.meaningOf name true false with
    | .program (.error _) =>
        warn (name ++ ": not found".toList)
        status := 1
    | _ => pure ()
  return status

/-- There are no other names for commands. -/
def aliases (command : String) (names : List Octets) : Act Nat := do
  let missing := names.filter (! ·.contains '=')
  for name in missing do
    discard (write 2 (command.toList ++ ": ".toList ++ name ++ " not found\n".toList))
  return if missing.isEmpty then 0 else 1

def resume (_ : List Octets) : Act Nat :=
  fail "No current job".toList

end HclEdit.Shell.Builtin
