import HclEdit.Shell.Command

/-!
The text of a script while it is read: what is left of it, the line that has been reached, and the
documents that are due at the end of that line. A backslash at the end of a line joins it to the
next one.
-/

namespace HclEdit.Shell

inductive RedirectionMark where
  | file (access : Access)
  | duplicate
  | document (strip : Bool)
deriving DecidableEq

inductive Token where
  | word (word : Word)
  | reserved (name : Octets)
  | redirection (descriptor : Nat) (mark : RedirectionMark)
  | operator (name : Octets)
  | newline
  | finish

/-- How a message names a token. -/
def Token.describe : Token → Octets
  | word _ => "word".toList
  | reserved name | operator name => '"' :: (name ++ ['"'])
  | redirection _ _ => "redirection".toList
  | newline => "newline".toList
  | finish => "end of file".toList

def Token.ofOperator (name : String) : Token :=
  operator name.toList

def Token.ofReserved (name : String) : Token :=
  reserved name.toList

def Token.isOperator (name : String) : Token → Bool
  | operator found => found == name.toList
  | _ => false

def Token.isReserved (name : String) : Token → Bool
  | reserved found => found == name.toList
  | _ => false

/-- A mistake in a script, and the line it is found on. -/
structure Fault where
  line : Nat
  message : Octets

structure PendingDocument where
  number : Nat
  mark : Octets
  strip : Bool
  expands : Bool

structure Source where
  text : Octets
  line : Nat
  pushed : Option Token
  pending : List PendingDocument
  documents : List (Nat × Word)
  nextDocument : Nat

abbrev Reading := StateT Source (Except Fault)

namespace Reading

def fail {α : Type} (message : Octets) : Reading α :=
  fun source => .error ⟨source.line, message⟩

def failWith {α : Type} (message : String) : Reading α :=
  fail message.toList

/-- Messages about tokens are cut off at this length. -/
def maxMessage : Nat := 63

/-- Fails because of a token where another one, or no particular one, should be. -/
def unexpected {α : Type} (token : Token) (expected : Option Token) : Reading α :=
  let hint := expected.elim [] fun other => " (expecting ".toList ++ other.describe ++ [')']
  fail ("Syntax error: ".toList ++
    (token.describe ++ " unexpected".toList ++ hint).take maxMessage)

def skipJoins : Octets → Nat → Octets × Nat
  | '\\' :: '\n' :: rest, line => skipJoins rest (line + 1)
  | text, line => (text, line)

/-- Passes over joined line ends. -/
def join : Reading Unit :=
  modify fun source =>
    let (text, line) := skipJoins source.text source.line
    { source with text, line }

/-- The next character as it stands. -/
def peekRaw : Reading (Option Char) :=
  return (← get).text.head?

/-- Takes the next character as it stands, and counts it if it ends a line. -/
def takeRaw : Reading (Option Char) := do
  let source ← get
  match source.text with
  | [] => return none
  | c :: rest =>
      set { source with text := rest, line := if c = '\n' then source.line + 1 else source.line }
      return some c

def peek : Reading (Option Char) := do
  join
  peekRaw

def take : Reading (Option Char) := do
  join
  takeRaw

/-- Takes the next character if it is the given one. -/
def takeIf (c : Char) : Reading Bool := do
  if (← peek) = some c then
    discard takeRaw
    return true
  else
    return false

/-- Takes characters as long as they belong to a class. -/
def takeWhile (belongs : Char → Bool) : Nat → Reading Octets
  | 0 => return []
  | fuel + 1 => do
      match ← peek with
      | some c =>
          if belongs c then
            discard takeRaw
            return c :: (← takeWhile belongs fuel)
          else
            return []
      | none => return []

/-- As many steps as reading what is left can take. -/
def fuel : Reading Nat :=
  return 8 * (← get).text.length + 64

def push (token : Token) : Reading Unit :=
  modify fun source => { source with pushed := some token }

end Reading

end HclEdit.Shell
