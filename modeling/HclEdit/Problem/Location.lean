import HclEdit.Text.Blank
import HclEdit.Text.Digit

/-!
Location lines such as `on main.tf line 3, in resource "x":`. The source name may be any text, so a
line can be cut in several ways; the shortest source name counts.
-/

namespace HclEdit.Location

/-- Whether a text can follow the line number: a colon, before it perhaps a comma and a scope. -/
def isTail : Text → Bool
  | ':' :: rest => Text.isBlankText rest
  | ',' :: ' ' :: rest => (Text.trimEnd rest).getLast? == some ':'
  | _ => false

/-- The digits of a text that goes on with the line number and its tail. -/
def digitsAt? : Text → Option Text
  | ' ' :: 'l' :: 'i' :: 'n' :: 'e' :: ' ' :: rest =>
      let digits := rest.takeWhile Text.isDecimalDigit
      if ! digits.isEmpty && isTail (rest.dropWhile Text.isDecimalDigit) then some digits else none
  | _ => none

/-- The digits after the shortest source name, which has at least one character. -/
def digitsAfterSource? : Text → Option Text
  | [] => none
  | _ :: rest =>
      match digitsAt? rest with
      | some digits => some digits
      | none => digitsAfterSource? rest

/-- The digits of the line number in a location line; nothing for any other line. -/
def digits? (line : Text) : Option Text :=
  match Text.trimStart line with
  | 'o' :: 'n' :: ' ' :: rest => digitsAfterSource? rest
  | _ => none

/-- The line number that digits stand for: ASCII digits, and no more than 64 bits. -/
def number? (digits : Text) : Option Nat :=
  (Text.natural? digits).filter (· < UInt64.size)

end HclEdit.Location
