import HclEdit.Files
import HclEdit.Shell.Arithmetic

/-!
The conditions of `test`: comparisons of texts and numbers, questions about files, and what is put
together from them. What a word means depends on the words after it.
-/

namespace HclEdit.Shell.Condition

inductive Operator where
  | unary (letter : Char)
  | binary (name : String)
  | not | both | either | opening | closing
deriving DecidableEq

inductive Token where
  | finish
  | operand
  | operator (operator : Operator)
deriving DecidableEq

def unaryLetters : List Char :=
  "rwxefdcbpugksSLhOGtzn".toList

def binaryNames : List String :=
  ["=", "!=", "<", ">", "-eq", "-ne", "-ge", "-gt", "-le", "-lt", "-nt", "-ot", "-ef"]

def operatorOf? (word : Octets) : Option Operator :=
  match word with
  | ['!'] => some .not
  | ['('] => some .opening
  | [')'] => some .closing
  | ['-', 'a'] => some .both
  | ['-', 'o'] => some .either
  | ['-', letter] => if unaryLetters.contains letter then some (.unary letter) else none
  | _ => (binaryNames.find? (·.toList = word)).map .binary

def isBinary : Option Operator → Bool
  | some (.binary _) => true
  | _ => false

/-- Whether words after a unary operator make it an operand. -/
def makeOperand : List Octets → Bool
  | [] => true
  | [_] => false
  | word :: _ => isBinary (operatorOf? word)

/-- What the first of the words means. -/
def token : List Octets → Token
  | [] => .finish
  | word :: rest =>
      match operatorOf? word with
      | some (.unary letter) => if makeOperand rest then .operand else .operator (.unary letter)
      | some .opening => if rest.isEmpty then .operand else .operator .opening
      | some operator => .operator operator
      | none => .operand

/-- What is asked about files. -/
structure Answers where
  entry? : Octets → Option FileEntry
  isDevice : Octets → Bool
  isSame : Octets → Octets → Bool

def number (word : Octets) : Except Octets Int :=
  match Arithmetic.ofDecimal? word with
  | some value => .ok value
  | none => .error ("Illegal number: ".toList ++ word)

def ofUnary (answers : Answers) (letter : Char) (word : Octets) : Except Octets Bool := do
  let isFile : FileEntry → Bool
    | .directory => false
    | _ => true
  let about (holds : FileEntry → Bool) : Bool := (answers.entry? word).any holds
  match letter with
  | 'z' => return word.isEmpty
  | 'n' => return ! word.isEmpty
  | 't' =>
      discard (number word)
      return false
  | 'c' => return answers.isDevice word
  | 'e' | 'r' | 'w' | 'O' | 'G' => return answers.isDevice word || about fun _ => true
  | 'f' => return ! answers.isDevice word && about isFile
  | 'd' => return about fun entry => ! isFile entry
  | 's' =>
      return about fun entry =>
        match entry with
        | .file content _ => ! content.isEmpty
        | _ => true
  | 'x' =>
      return about fun entry =>
        match entry with
        | .file _ executable => executable
        | _ => true
  | _ => return false

def ofBinary (answers : Answers) (name : String) (left right : Octets) : Except Octets Bool := do
  let compare (holds : Int → Int → Bool) : Except Octets Bool := do
    return holds (← number left) (← number right)
  match name with
  | "=" => return left = right
  | "!=" => return left ≠ right
  | "<" => return left < right
  | ">" => return right < left
  | "-eq" => compare (· = ·)
  | "-ne" => compare (· ≠ ·)
  | "-ge" => compare (· ≥ ·)
  | "-gt" => compare (· > ·)
  | "-le" => compare (· ≤ ·)
  | "-lt" => compare (· < ·)
  | "-ef" => return answers.isSame left right
  | _ => return false

/-- A value with the words from the last one that it took. -/
abbrev Result := Except Octets (Bool × List Octets)

mutual

def readEither (answers : Answers) : Nat → Token → List Octets → Result
  | 0, _, words => .ok (false, words)
  | fuel + 1, first, words => do
      let (value, left) ← readBoth answers fuel first words
      if token left.tail = .operator .either then
        let (other, left) ← readEither answers fuel (token (left.drop 2)) (left.drop 2)
        return (value || other, left)
      else
        return (value, left)

def readBoth (answers : Answers) : Nat → Token → List Octets → Result
  | 0, _, words => .ok (false, words)
  | fuel + 1, first, words => do
      let (value, left) ← readNegated answers fuel first words
      if token left.tail = .operator .both then
        let (other, left) ← readBoth answers fuel (token (left.drop 2)) (left.drop 2)
        return (value && other, left)
      else
        return (value, left)

def readNegated (answers : Answers) : Nat → Token → List Octets → Result
  | 0, _, words => .ok (false, words)
  | fuel + 1, first, words => do
      if first = .operator .not then
        let next := if words.tail.isEmpty then words else words.tail
        let (value, left) ← readNegated answers fuel (token words.tail) next
        return (! value, left)
      else
        readPrimary answers fuel first words

def readPrimary (answers : Answers) : Nat → Token → List Octets → Result
  | 0, _, words => .ok (false, words)
  | fuel + 1, first, words => do
      match first, words with
      | .finish, _ | _, [] => return (false, words)
      | .operator .opening, _ :: rest =>
          if token rest = .operator .closing then
            return (false, rest)
          else
            let (value, left) ← readEither answers fuel (token rest) rest
            if token left.tail = .operator .closing then return (value, left.tail)
            else throw "closing paren expected".toList
      | .operator (.unary letter), word :: rest =>
          match rest with
          | [] => throw (word ++ ": argument expected".toList)
          | operand :: _ => return (← ofUnary answers letter operand, rest)
      | _, word :: rest =>
          match token rest, rest with
          | .operator (.binary name), [_] => throw (name.toList ++ ": argument expected".toList)
          | .operator (.binary name), _ :: other :: left =>
              return (← ofBinary answers name word other, other :: left)
          | _, _ => return (! word.isEmpty, words)

end

/-- The value of words; `first` tells what the first of them means. -/
def ofWords (answers : Answers) (first : Token) (words : List Octets) : Except Octets Bool := do
  let (value, left) ← readEither answers (4 * words.length + 4) first words
  match left with
  | word :: _ :: _ => throw (word ++ ": unexpected operator".toList)
  | _ => return value

/-- Whether the words of a condition hold. Three words with a binary operator between two others are
always a comparison. -/
def holds (answers : Answers) : List Octets → Except Octets Bool
  | [] => .ok false
  | words =>
      match words with
      | [_, operator, _] =>
          if isBinary (operatorOf? operator) then ofWords answers .operand words
          else inside words
      | [_, _, _, _] => inside words
      | _ => ofWords answers (token words) words
where
  inside (words : List Octets) : Except Octets Bool :=
    if words.head? = some ['('] ∧ words.getLast? = some [')'] then
      let inner := words.tail.dropLast
      ofWords answers (token inner) inner
    else if words.head? = some ['!'] then
      (negated words.tail).map (! ·)
    else
      ofWords answers (token words) words
  /-- Whether words hold that follow a negation; one more negation of two words adds nothing. -/
  negated (words : List Octets) : Except Octets Bool :=
    match words with
    | [first, operator, _] =>
        if isBinary (operatorOf? operator) then ofWords answers .operand words
        else if first = ['('] ∧ words.getLast? = some [')'] then
          let inner := words.tail.dropLast
          ofWords answers (token inner) inner
        else if first = ['!'] then ofWords answers (token words.tail) words.tail
        else ofWords answers (token words) words
    | _ => ofWords answers (token words) words

end HclEdit.Shell.Condition
