import HclEdit.Json.Basic
import HclEdit.Text.Number

/-!
The values of TOML that are written without quotes or brackets: booleans, integers of 64 bits,
floats, dates and times.
-/

namespace HclEdit.Toml

/-- The digits of a number without the underscores, which stand only between two digits. -/
def ungrouped? (isDigit : Char → Bool) : Text → Option Text
  | [] => none
  | [c] => if isDigit c then some [c] else none
  | c :: '_' :: rest => if isDigit c then (ungrouped? isDigit rest).map (c :: ·) else none
  | c :: rest => if isDigit c then (ungrouped? isDigit rest).map (c :: ·) else none

def radixNumber? (radix : Nat) (text : Text) : Option Nat := do
  let isDigit := fun c => ((Text.hexValue? c).filter (· < radix)).isSome
  let digits ← ungrouped? isDigit text
  some (digits.foldl (fun total c => total * radix + (Text.hexValue? c).getD 0) 0)

def decimalNumber? (text : Text) : Option Nat :=
  match text with
  | '0' :: _ :: _ => none
  | _ => radixNumber? 10 text

def signed? (negative : Bool) (magnitude : Nat) : Option Json :=
  if negative then
    if magnitude ≤ Int64.size / 2 then some (.integer (-magnitude)) else none
  else if magnitude < Int64.size / 2 then some (.integer magnitude)
  else none

def integer? (text : Text) : Option Json :=
  match text with
  | '0' :: 'x' :: digits => radixNumber? 16 digits >>= signed? false
  | '0' :: 'o' :: digits => radixNumber? 8 digits >>= signed? false
  | '0' :: 'b' :: digits => radixNumber? 2 digits >>= signed? false
  | '-' :: digits => decimalNumber? digits >>= signed? true
  | '+' :: digits => decimalNumber? digits >>= signed? false
  | _ => decimalNumber? text >>= signed? false

def isExponent : Text → Bool
  | [] => true
  | mark :: rest =>
      (mark == 'e' || mark == 'E') && (ungrouped? Text.isDigit (Text.takeSign rest).2).isSome

def isFraction : Text → Bool
  | '.' :: rest =>
      let (digits, after) := rest.span fun c => Text.isDigit c || c == '_'
      (ungrouped? Text.isDigit digits).isSome && isExponent after
  | text => isExponent text

/-- Reads a float, which has a fraction or an exponent. One that is too large is refused if it is
positive; a value that JSON has no number for becomes null. -/
def float? (text : Text) : Option Json :=
  let (sign, unsigned) := Text.takeSign text
  let (whole, rest) := unsigned.span fun c => Text.isDigit c || c == '_'
  let literal := text.filter (· != '_')
  if unsigned == "inf".toList || unsigned == "nan".toList then some .null
  else if (decimalNumber? whole).isNone || rest.isEmpty || ! isFraction rest then none
  else if ! Text.exceedsBinary64 literal then some (.real literal)
  else if sign == ['-'] then some .null
  else none

/-! Dates and times. -/

/-- Reads so many digits at the front of a text. -/
def takeNumber? (count : Nat) (text : Text) : Option (Nat × Text) :=
  if (text.take count).length = count ∧ (text.take count).all Text.isDigit then
    (Text.natural? (text.take count)).map (·, text.drop count)
  else
    none

def take? (mark : Char) (text : Text) : Option Text :=
  if text.head? = some mark then some (text.drop 1) else none

def isLeapYear (year : Nat) : Bool :=
  year % 4 == 0 && (year % 100 != 0 || year % 400 == 0)

def daysIn (year month : Nat) : Nat :=
  if month = 2 then (if isLeapYear year then 29 else 28)
  else if [4, 6, 9, 11].contains month then 30
  else 31

/-- Takes a day of the calendar. -/
def takeDate? (text : Text) : Option Text := do
  let (year, rest) ← takeNumber? 4 text
  let (month, rest) ← takeNumber? 2 (← take? '-' rest)
  let (day, rest) ← takeNumber? 2 (← take? '-' rest)
  if 1 ≤ month ∧ month ≤ 12 ∧ 1 ≤ day ∧ day ≤ daysIn year month then some rest else none

/-- Takes an hour and a minute. -/
def takeClock? (text : Text) : Option Text := do
  let (hour, rest) ← takeNumber? 2 text
  let (minute, rest) ← takeNumber? 2 (← take? ':' rest)
  if hour ≤ 23 ∧ minute ≤ 59 then some rest else none

/-- Takes a time of day, with a second that may be a leap second. -/
def takeTime? (text : Text) : Option Text := do
  let (second, rest) ← takeNumber? 2 (← take? ':' (← takeClock? text))
  if 60 < second then
    none
  else
    match rest with
    | '.' :: fraction =>
        let (digits, left) := fraction.span Text.isDigit
        if digits.isEmpty then none else some left
    | _ => some rest

def isOffset : Text → Bool
  | [] => true
  | ['Z'] | ['z'] => true
  | '+' :: clock | '-' :: clock => takeClock? clock == some []
  | _ => false

def isTime (text : Text) : Bool :=
  takeTime? text == some []

def isDate (text : Text) : Bool :=
  takeDate? text == some []

/-- Whether a text is a time of day with an offset from universal time if need be. -/
def isOffsetTime (text : Text) : Bool :=
  (takeTime? text).any isOffset

def isDateTime (text : Text) : Bool :=
  match takeDate? text with
  | some [] => true
  | some (mark :: time) => (mark == 'T' || mark == 't' || mark == ' ') && isOffsetTime time
  | none => isTime text

/-- No setting holds a date; it is an object like no other value. -/
def ofDateTime (text : Text) : Json :=
  .object [("datetime", .text text)]

def isScalar (c : Char) : Bool :=
  c.isAlphanum || c == '+' || c == '-' || c == '_' || c == '.' || c == ':'

/-- Takes the characters of a value. A date may be followed by a time after one space. -/
def takeScalar (text : Text) : Text × Text :=
  let (first, rest) := text.span isScalar
  match rest with
  | ' ' :: after =>
      let (second, left) := after.span isScalar
      if isDate first && isOffsetTime second then (first ++ ' ' :: second, left)
      else (first, rest)
  | _ => (first, rest)

def scalarValue? (text : Text) : Option Json :=
  if text = "true".toList then some (.bool true)
  else if text = "false".toList then some (.bool false)
  else if isDateTime text then some (ofDateTime text)
  else (integer? text).or (float? text)

end HclEdit.Toml
