import HclEdit.Shell.Builtin.Control
import HclEdit.Shell.Builtin.Plain
import HclEdit.Shell.Builtin.Variables

/-!
The words of a simple command: how they are expanded, and what they call. The word `command` in
front leaves functions out of account.
-/

namespace HclEdit.Shell

/-- The fields of a simple command, taken apart. -/
structure Call where
  fields : List Octets
  withFunctions : Bool
  useDefault : Bool
  asks : Bool

namespace Call

open Act

/-- Whether an argument of `command` tells where to look; another option asks about a name. -/
def isSearchOption : Octets → Bool
  | '-' :: c :: letters => (c :: letters).all (· = 'p')
  | _ => false

/-- Passes over the word `command` and its options; nothing comes back while the word that is called
is not known yet. -/
def afterCommand (asked : List Octets) (useDefault : Bool) : List Octets → Option Call
  | [] => none
  | ['-', '-'] :: rest => if rest.isEmpty then none else some ⟨rest, false, useDefault, false⟩
  | field :: rest =>
      if isSearchOption field then afterCommand asked true rest
      else
        match field with
        | '-' :: _ :: _ => some ⟨asked, true, useDefault, true⟩
        | _ => some ⟨field :: rest, false, useDefault, false⟩

/-- What is called by fields, if that is known. -/
def ofFields? (isFunction : Octets → Bool) (fields : List Octets) : Option Call :=
  match fields with
  | [] => none
  | name :: rest =>
      if name = "command".toList ∧ ! isFunction name then afterCommand fields false rest
      else some ⟨fields, true, false, false⟩

/-- The commands whose arguments may set variables. -/
def declaring : List Octets :=
  ["alias", "export", "local", "readonly"].map String.toList

def declares (isFunction : Octets → Bool) (call : Call) : Bool :=
  match call.fields with
  | name :: _ => declaring.contains name && ! (call.withFunctions && isFunction name)
  | [] => false

/-- Expands an argument that may set a variable. -/
def expandDeclaration (again : Evaluator) (word : Word) : Act (List Octets) := do
  match word.assignment? with
  | some (name, value) => return [name ++ '=' :: (← Expansion.value again value)]
  | none => Expansion.fields again word

/-- Expands the words of a simple command. Those after a word that declares variables are expanded
like assignments if they look like some. -/
def expand (again : Evaluator) (isFunction : Octets → Bool) :
    List Octets → List Word → Act (List Octets)
  | fields, [] => return fields
  | fields, word :: rest => do
      let isDeclared := (ofFields? isFunction fields).any (declares isFunction)
      let next ←
        if isDeclared then expandDeclaration again word else Expansion.fields again word
      expand again isFunction (fields ++ next) rest

/-- The call of the words of a simple command, if there is one; `command` alone calls nothing. -/
def ofWords (again : Evaluator) (words : List Word) : Act (Option Call) := do
  let functions := (← shell).functions
  let isFunction (name : Octets) : Bool := (functions.lookup name).isSome
  let fields ← expand again isFunction [] words
  match ofFields? isFunction fields with
  | some call => return some call
  | none => return if fields.isEmpty then none else some ⟨fields, true, false, true⟩

end Call

/-- The commands of the shell that need nothing but their arguments. -/
def Builtin.find? (name : Octets) : Option (List Octets → Act Nat) :=
  match String.ofList name with
  | ":" | "true" => some fun _ => return 0
  | "false" => some fun _ => return 1
  | "[" => some bracket
  | "alias" => some (aliases "alias")
  | "bg" | "fg" => some resume
  | "break" => some (leaveLoops .leaving)
  | "cd" | "chdir" => some changeDirectory
  | "continue" => some (leaveLoops .continuing)
  | "echo" => some echo
  | "exit" => some exit
  | "export" => some «export»
  | "getopts" => some getopts
  | "hash" => some hash
  | "jobs" => some jobs
  | "kill" => some kill
  | "local" => some declareLocal
  | "printf" => some printf
  | "pwd" => some pwd
  | "read" => some read
  | "readonly" => some readOnly
  | "return" => some leaveFunction
  | "set" => some set
  | "shift" => some shift
  | "test" => some test
  | "times" => some times
  | "trap" => some trap
  | "type" => some type
  | "ulimit" => some ulimit
  | "umask" => some umask
  | "unalias" => some (aliases "unalias")
  | "unset" => some unset
  | "wait" => some wait
  | _ => none

/-- Answers what `command` is asked about a name. -/
def Builtin.about (fields : List Octets) : Act Nat := do
  let (options, names) ← readOptions "pvV" "" fields.tail
  match names with
  | name :: _ =>
      if options.any fun (letter, _) => letter ≠ 'p' then
        let atLength := options.any (·.1 = 'V')
        let (text, status) ← Lookup.describe name atLength (options.any (·.1 = 'p'))
        discard (put text)
        return status
      else
        return 0
  | [] => return 0

end HclEdit.Shell
