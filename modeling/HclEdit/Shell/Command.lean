import HclEdit.Shell.Octets

/-!
The commands of a shell script. A word is made of characters, of quotes, and of parts that are
expanded when the word is used. Documents that follow the line they are asked for on are kept apart,
by number.
-/

namespace HclEdit.Shell

/-- What a parameter is expanded to. With `orEmpty` an empty value counts as none. -/
inductive Use where
  | value
  | length
  | default (orEmpty : Bool)
  | alternative (orEmpty : Bool)
  | failure (orEmpty : Bool)
  | assignment (orEmpty : Bool)
  | trimStart (longest : Bool)
  | trimEnd (longest : Bool)
  | invalid
deriving DecidableEq

/-- How a file is opened. What is there already may be protected against `write`, but not against
`overwrite`. -/
inductive Access where
  | read
  | readWrite
  | write
  | overwrite
  | append
deriving DecidableEq

mutual

inductive Part where
  | plain (c : Char)
  | quoted (c : Char)
  | quoteMark
  | parameter (name : Octets) (use : Use) (word : List Part) (quoted : Bool)
  | command (body : Option Command) (quoted : Bool)
  | arithmetic (expression : List Part) (quoted : Bool)

inductive Redirection where
  | file (descriptor : Nat) (access : Access) (path : List Part)
  | duplicate (descriptor : Nat) (source : List Part)
  | document (descriptor number : Nat)

/-- A command with the line it starts on, where messages about it need that. -/
inductive Command where
  | simple (line : Nat) (assignments words : List (List Part)) (redirections : List Redirection)
  | pipeline (stages : List Command)
  | background (body : Command)
  | redirected (line : Nat) (body : Command) (redirections : List Redirection)
  | subshell (line : Nat) (body : Command) (redirections : List Redirection)
  | sequence (first second : Command)
  | both (first second : Command)
  | either (first second : Command)
  | negation (body : Command)
  | conditional (test yes : Command) (no : Option Command)
  | loop (stopsOn : Bool) (test body : Command)
  | iteration (line : Nat) (name : Octets) (words : List (List Part)) (body : Command)
  | choice (line : Nat) (subject : List Part)
      (branches : List (List (List Part) × Option Command))
  | definition (line : Nat) (name : Octets) (body : Command)

end

instance : Inhabited Command :=
  ⟨.simple 0 [] [] []⟩

abbrev Word := List Part

namespace Word

/-- The characters of a word that has nothing to expand and no quotes. -/
def plain? (word : Word) : Option Octets :=
  word.mapM fun
    | .plain c => some c
    | _ => none

def isQuoted (word : Word) : Bool :=
  word.any fun
    | .quoted _ | .quoteMark => true
    | _ => false

/-- The characters of a word without its quotes. -/
def unquoted (word : Word) : Octets :=
  word.filterMap fun
    | .plain c | .quoted c => some c
    | _ => none

end Word

def isDigit (c : Char) : Bool :=
  '0' ≤ c && c ≤ '9'

def isNameStart (c : Char) : Bool :=
  ('a' ≤ c && c ≤ 'z') || ('A' ≤ c && c ≤ 'Z') || c == '_'

def isNameChar (c : Char) : Bool :=
  isNameStart c || isDigit c

def isName : Octets → Bool
  | [] => false
  | c :: rest => isNameStart c && rest.all isNameChar

/-- The name and the value of a word that sets a variable: a name, an equals sign and the rest, with
no quotes up to the sign. -/
def Word.assignment? (word : Word) : Option (Octets × Word) :=
  let letters := word.takeWhile fun
    | .plain c => isNameChar c
    | _ => false
  match word.drop letters.length with
  | .plain '=' :: value =>
      if isName (Word.unquoted letters) then some (Word.unquoted letters, value) else none
  | _ => none

end HclEdit.Shell
