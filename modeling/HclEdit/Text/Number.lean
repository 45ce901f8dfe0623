import HclEdit.Text.Basic

/-!
Numbers as texts write them: decimal and hexadecimal digits, signs, and decimal numbers that are too
large for a binary64 value.
-/

namespace HclEdit.Text

def isDigit (c : Char) : Bool :=
  '0' ≤ c && c ≤ '9'

def hexValue? (c : Char) : Option Nat :=
  if '0' ≤ c ∧ c ≤ '9' then some (c.toNat - '0'.toNat)
  else if 'a' ≤ c ∧ c ≤ 'f' then some (c.toNat - 'a'.toNat + 10)
  else if 'A' ≤ c ∧ c ≤ 'F' then some (c.toNat - 'A'.toNat + 10)
  else none

/-- The value of hexadecimal digits; that of none is zero. -/
def hexNumber? (digits : Text) : Option Nat :=
  digits.foldl (fun total? c => do
    let total ← total?
    let digit ← hexValue? c
    some (total * 16 + digit)) (some 0)

/-- The character with a code; the halves of surrogate pairs are no characters. -/
def scalar? (code : Nat) : Option Char :=
  if code < 0xD800 ∨ (0xE000 ≤ code ∧ code < 0x110000) then some (Char.ofNat code) else none

def takeSign : Text → Text × Text
  | '+' :: rest => (['+'], rest)
  | '-' :: rest => (['-'], rest)
  | text => ([], text)

/-- A decimal number without its sign: its digits, and the power of ten that goes with the last of
them. -/
structure Decimal where
  digits : Text
  exponent : Int

/-- Takes a number apart that is known to be well formed. -/
def Decimal.ofText (text : Text) : Decimal :=
  let (whole, rest) := (takeSign text).2.span isDigit
  let (fraction, tail) :=
    match rest with
    | '.' :: after => after.span isDigit
    | _ => ([], rest)
  let (sign, digits) := takeSign (tail.drop 1)
  let power : Int := (natural? digits).getD 0
  ⟨whole ++ fraction, (if sign = ['-'] then -power else power) - fraction.length⟩

/-- The least number that is rounded out of the range of binary64. -/
def binary64Limit : Nat :=
  (1 <<< 1024) - (1 <<< 970)

/-- Whether the magnitude of a number is out of the range of binary64. The limit has 309 digits, so
that only numbers with as many have to be compared with it. -/
def exceedsBinary64 (text : Text) : Bool :=
  let decimal := Decimal.ofText text
  let digits := decimal.digits.dropWhile (· == '0')
  let magnitude : Int := digits.length + decimal.exponent
  if digits.isEmpty || magnitude < 309 then false
  else if 309 < magnitude then true
  else
    (binary64Limit * Nat.pow 10 (-decimal.exponent).toNat : Nat) ≤
      (natural? digits).getD 0 * Nat.pow 10 decimal.exponent.toNat

end HclEdit.Text
