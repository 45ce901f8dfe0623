import HclEdit.Shell.Machine
import HclEdit.Shell.Options

/-!
What the commands of the shell have in common: options, numbers, and output that may fail.
-/

namespace HclEdit.Shell.Builtin

open Act

/-- Writes the output of a command of the shell. -/
def put (text : Octets) : Act Nat := do
  match ← write 1 text with
  | none => return 0
  | some _ =>
      warn ((← shell).speaker.getD [] ++ ": I/O error".toList)
      return 1

def readOptions (plain valued : String) (arguments : List Octets) :
    Act (List (Char × Octets) × List Octets) := do
  match OptionLetters.read ⟨plain.toList, valued.toList⟩ arguments with
  | .ok read => return read
  | .error message => fail message

/-- What is left of arguments when a command takes no options. -/
def withoutOptions (arguments : List Octets) : Act (List Octets) := do
  return (← readOptions "" "" arguments).2

def illegalNumber {α : Type} (text : Octets) : Act α :=
  fail ("Illegal number: ".toList ++ text)

/-- A number that is not negative and fits in 31 bits. -/
def natural (text : Octets) : Act Nat := do
  match Arithmetic.ofDecimal? text with
  | some value =>
      if 0 ≤ value ∧ value ≤ Int32.maxValue.toInt then return value.toNat else illegalNumber text
  | none => illegalNumber text

/-- The name and the value of an argument that sets a variable. -/
def splitAssignment (argument : Octets) : Octets × Option Octets :=
  let (name, rest) := argument.span (· ≠ '=')
  (name, match rest with
    | _ :: value => some value
    | [] => none)

/-- A text in quotes, as a script could spell it. -/
def quote (text : Octets) : Octets :=
  go text.length text
where
  go : Nat → Octets → Octets
    | 0, _ => "''".toList
    | fuel + 1, text =>
        let (plain, rest) := text.span (· ≠ '\'')
        let (quotes, left) := rest.span (· = '\'')
        '\'' :: plain ++ ['\''] ++
          if quotes.isEmpty then []
          else '"' :: quotes ++ ['"'] ++ if left.isEmpty then [] else go fuel left

end HclEdit.Shell.Builtin
