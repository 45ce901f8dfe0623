import HclEdit.Shell.Command
import HclEdit.Text.Number

/-!
Arithmetic expressions on integers of 64 bits. Variables are looked up as numbers and may be set on
the way.
-/

namespace HclEdit.Shell.Arithmetic

inductive Operator where
  | multiply | divide | remainder
  | add | subtract
  | shiftLeft | shiftRight
  | less | lessOrEqual | greater | greaterOrEqual
  | equal | unequal
  | bitAnd | bitXor | bitOr
deriving DecidableEq

/-- Operators with a lower rank bind more tightly. -/
def Operator.rank : Operator → Nat
  | multiply | divide | remainder => 0
  | add | subtract => 1
  | shiftLeft | shiftRight => 2
  | less | lessOrEqual | greater | greaterOrEqual => 3
  | equal | unequal => 4
  | bitAnd => 5
  | bitXor => 6
  | bitOr => 7

inductive Token where
  | number (value : Int)
  | name (name : Octets)
  | binary (operator : Operator)
  | assign (operator : Option Operator)
  | not | complement | both | either
  | question | colon | opening | closing
  | unknown
deriving DecidableEq

inductive Mistake where
  | malformed (reason : String)
  | illegalNumber (text : Octets)

def isSpace (c : Char) : Bool :=
  c == ' ' || ('\t' ≤ c && c ≤ '\r')

/-- The integer of 64 bits with the same residue. -/
def wrap (value : Int) : Int :=
  Int.bmod value UInt64.size

/-- The nearest integer of 64 bits. -/
def saturate (value : Int) : Int :=
  max Int64.minValue.toInt (min value Int64.maxValue.toInt)

/-- A number at the front of a text, in the base that its first digits tell, and what follows. -/
def takeUnsigned (text : Octets) : Nat × Octets :=
  let inBase (base : Nat) (digits : Octets) : Nat × Octets :=
    let (used, left) := digits.span fun c => ((Text.hexValue? c).filter (· < base)).isSome
    (used.foldl (fun total c => total * base + (Text.hexValue? c).getD 0) 0, left)
  match text with
  | '0' :: x :: c :: rest =>
      if (x == 'x' || x == 'X') && (Text.hexValue? c).isSome then inBase 16 (c :: rest)
      else inBase 8 text
  | '0' :: _ => inBase 8 text
  | _ => inBase 10 text

/-- Reads a number with blanks and a sign in front; the text comes back whole if there is none. -/
def takeInteger (text : Octets) : Int × Octets :=
  let trimmed := text.dropWhile isSpace
  let (sign, digits) := Text.takeSign trimmed
  if digits.head?.any isDigit then
    let (magnitude, left) := takeUnsigned digits
    (if sign = ['-'] then -magnitude else magnitude, left)
  else
    (0, text)

/-- The value of a text as a number; blanks may surround it, and without digits it is zero. -/
def ofText (text : Octets) : Except Mistake Int :=
  let (value, left) := takeInteger text
  if saturate value = value ∧ (left.dropWhile isSpace).isEmpty then .ok value
  else .error (.illegalNumber text)

/-- A number in base ten, with a sign if need be, that is all of a text but for blanks around it. -/
def ofDecimal? (text : Octets) : Option Int := do
  let (sign, unsigned) := Text.takeSign (text.dropWhile isSpace)
  let (digits, left) := unsigned.span isDigit
  let magnitude : Int := (← Text.natural? digits)
  let value := if sign = ['-'] then -magnitude else magnitude
  if saturate value = value ∧ (left.dropWhile isSpace).isEmpty then some value else none

/-- Takes the first token of a text that starts with no blank. -/
def takeToken (text : Octets) : Token × Octets :=
  match text with
  | '<' :: '<' :: '=' :: rest => (.assign (some .shiftLeft), rest)
  | '>' :: '>' :: '=' :: rest => (.assign (some .shiftRight), rest)
  | '<' :: '<' :: rest => (.binary .shiftLeft, rest)
  | '>' :: '>' :: rest => (.binary .shiftRight, rest)
  | '<' :: '=' :: rest => (.binary .lessOrEqual, rest)
  | '>' :: '=' :: rest => (.binary .greaterOrEqual, rest)
  | '=' :: '=' :: rest => (.binary .equal, rest)
  | '!' :: '=' :: rest => (.binary .unequal, rest)
  | '&' :: '&' :: rest => (.both, rest)
  | '|' :: '|' :: rest => (.either, rest)
  | '*' :: '=' :: rest => (.assign (some .multiply), rest)
  | '/' :: '=' :: rest => (.assign (some .divide), rest)
  | '%' :: '=' :: rest => (.assign (some .remainder), rest)
  | '+' :: '=' :: rest => (.assign (some .add), rest)
  | '-' :: '=' :: rest => (.assign (some .subtract), rest)
  | '&' :: '=' :: rest => (.assign (some .bitAnd), rest)
  | '^' :: '=' :: rest => (.assign (some .bitXor), rest)
  | '|' :: '=' :: rest => (.assign (some .bitOr), rest)
  | '=' :: rest => (.assign none, rest)
  | '*' :: rest => (.binary .multiply, rest)
  | '/' :: rest => (.binary .divide, rest)
  | '%' :: rest => (.binary .remainder, rest)
  | '+' :: rest => (.binary .add, rest)
  | '-' :: rest => (.binary .subtract, rest)
  | '<' :: rest => (.binary .less, rest)
  | '>' :: rest => (.binary .greater, rest)
  | '&' :: rest => (.binary .bitAnd, rest)
  | '^' :: rest => (.binary .bitXor, rest)
  | '|' :: rest => (.binary .bitOr, rest)
  | '!' :: rest => (.not, rest)
  | '~' :: rest => (.complement, rest)
  | '?' :: rest => (.question, rest)
  | ':' :: rest => (.colon, rest)
  | '(' :: rest => (.opening, rest)
  | ')' :: rest => (.closing, rest)
  | c :: rest =>
      if isDigit c then
        let (value, left) := takeUnsigned text
        (.number (saturate value), left)
      else if isNameStart c then
        let (name, left) := text.span isNameChar
        (.name name, left)
      else
        (.unknown, rest)
  | [] => (.unknown, [])

def tokens : Nat → Octets → List Token
  | 0, _ => []
  | fuel + 1, text =>
      match text.dropWhile fun c => c == ' ' || c == '\t' || c == '\n' with
      | [] => []
      | trimmed =>
          let (token, rest) := takeToken trimmed
          token :: tokens fuel rest

/-- The tokens that are left, and the variables: how they are looked up and what has been set. -/
structure State where
  tokens : List Token
  lookup : Octets → Option Octets
  bindings : List (Octets × Int)

/-- What has been set up to a mistake stays set. -/
abbrev Evaluation := ExceptT Mistake (StateM State)

namespace Evaluation

def fail {α : Type} (reason : String) : Evaluation α :=
  throw (.malformed reason)

def peek : Evaluation (Option Token) :=
  return (← get).tokens.head?

def skip : Evaluation Unit :=
  modify fun state => { state with tokens := state.tokens.drop 1 }

def valueOf (name : Octets) : Evaluation Int := do
  let state ← get
  match state.bindings.lookup name with
  | some value => return value
  | none => MonadExcept.ofExcept (ofText ((state.lookup name).getD []))

def bind (name : Octets) (value : Int) : Evaluation Unit :=
  modify fun state => { state with bindings := (name, value) :: state.bindings }

end Evaluation

def truth (b : Bool) : Int :=
  if b then 1 else 0

/-- Applies an operation on words of 64 bits. -/
def onWords (operation : UInt64 → UInt64 → UInt64) (a b : Int) : Int :=
  let word (value : Int) : UInt64 := UInt64.ofNat (value % UInt64.size).toNat
  wrap (operation (word a) (word b)).toNat

/-- The number of places that a shift goes. -/
def places (b : Int) : Nat :=
  (b % 64).toNat

def Operator.apply (operator : Operator) (a b : Int) : Evaluation Int :=
  match operator with
  | multiply => return wrap (a * b)
  | divide => if b = 0 then .fail "division by zero" else return wrap (Int.tdiv a b)
  | remainder => if b = 0 then .fail "division by zero" else return wrap (Int.tmod a b)
  | add => return wrap (a + b)
  | subtract => return wrap (a - b)
  | shiftLeft => return wrap (a <<< places b)
  | shiftRight => return (a >>> places b)
  | less => return truth (a < b)
  | lessOrEqual => return truth (a ≤ b)
  | greater => return truth (b < a)
  | greaterOrEqual => return truth (b ≤ a)
  | equal => return truth (a = b)
  | unequal => return truth (a ≠ b)
  | bitAnd => return onWords (· &&& ·) a b
  | bitXor => return onWords (· ^^^ ·) a b
  | bitOr => return onWords (· ||| ·) a b

mutual

/-- Reads an operand. With `off` variables are neither looked up nor set, and no operation is
carried out. -/
def readOperand : Nat → Bool → Evaluation Int
  | 0, _ => .fail "expecting primary"
  | fuel + 1, off => do
      let token ← Evaluation.peek
      Evaluation.skip
      match token with
      | some .opening =>
          let value ← readAssignment fuel off
          if (← Evaluation.peek) = some .closing then
            Evaluation.skip
            return value
          else
            .fail "expecting ')'"
      | some (.number value) => return value
      | some (.name name) => if off then return 0 else Evaluation.valueOf name
      | some (.binary .add) => readOperand fuel off
      | some (.binary .subtract) => return wrap (-(← readOperand fuel off))
      | some .not => return truth ((← readOperand fuel off) = 0)
      | some .complement => return -(← readOperand fuel off) - 1
      | _ => .fail "expecting primary"

/-- Goes on with the operators of a rank below `limit`, after their first operand. -/
def readOperators : Nat → Bool → Nat → Int → Evaluation Int
  | 0, _, _, first => return first
  | fuel + 1, off, limit, first => do
      match ← Evaluation.peek with
      | some (.binary operator) =>
          if operator.rank < limit then
            Evaluation.skip
            let second ← readOperand fuel off
            let second ← readOperators fuel off operator.rank second
            let value ← if off then pure second else operator.apply first second
            readOperators fuel off limit value
          else
            return first
      | _ => return first

def readBoth : Nat → Bool → Evaluation Int
  | 0, _ => .fail "expecting primary"
  | fuel + 1, off => do
      let first ← readOperators fuel off 8 (← readOperand fuel off)
      if (← Evaluation.peek) = some .both then
        Evaluation.skip
        let second ← readBoth fuel (off || first = 0)
        return truth (first ≠ 0 ∧ second ≠ 0)
      else
        return first

def readEither : Nat → Bool → Evaluation Int
  | 0, _ => .fail "expecting primary"
  | fuel + 1, off => do
      let first ← readBoth fuel off
      if (← Evaluation.peek) = some .either then
        Evaluation.skip
        let second ← readEither fuel (off || first ≠ 0)
        return truth (first ≠ 0 ∨ second ≠ 0)
      else
        return first

def readCondition : Nat → Bool → Evaluation Int
  | 0, _ => .fail "expecting primary"
  | fuel + 1, off => do
      let test ← readEither fuel off
      if (← Evaluation.peek) = some .question then
        Evaluation.skip
        let yes ← readAssignment fuel (off || test = 0)
        if (← Evaluation.peek) ≠ some .colon then
          .fail "expecting ':'"
        else
          Evaluation.skip
          let no ← readCondition fuel (off || test ≠ 0)
          return if test ≠ 0 then yes else no
      else
        return test

def readAssignment : Nat → Bool → Evaluation Int
  | 0, _ => .fail "expecting primary"
  | fuel + 1, off => do
      match (← get).tokens with
      | .name name :: .assign operator :: rest =>
          modify fun state => { state with tokens := rest }
          let value ← readAssignment fuel off
          if off then
            return value
          else
            let value ←
              match operator with
              | none => pure value
              | some operator => operator.apply (← Evaluation.valueOf name) value
            Evaluation.bind name value
            return value
      | _ => readCondition fuel off

end

/-- The value of an expression, and the variables that it sets, the last of them first. -/
def evaluate (lookup : Octets → Option Octets) (text : Octets) :
    Except Mistake Int × List (Octets × Int) :=
  let tokens := tokens (text.length + 1) text
  let reading : Evaluation Int := do
    let value ← readAssignment (8 * tokens.length + 16) false
    if ! (← get).tokens.isEmpty then
      Evaluation.fail "expecting EOF"
    return value
  let (result, state) := reading.run.run ⟨tokens, lookup, []⟩
  (result, state.bindings)

end HclEdit.Shell.Arithmetic
