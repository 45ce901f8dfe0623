import HclEdit.Json.Basic
import HclEdit.Text.Number

/-!
Reading JSON text. Reading checks the form alone; whether a value is within the limits that readers
of its parts set is asked afterwards: arrays and objects nested 127 deep, escapes for surrogates in
pairs only, and numbers in the range of binary64.
-/

namespace HclEdit.Json

def isSpace (c : Char) : Bool :=
  c == ' ' || c == '\n' || c == '\t' || c == '\r'

def skipSpace (text : Text) : Text :=
  text.dropWhile isSpace

def codeUnit? (a b c d : Char) : Option Nat :=
  Text.hexNumber? [a, b, c, d]

def escaped? : Char → Option Char
  | '"' => some '"'
  | '\\' => some '\\'
  | '/' => some '/'
  | 'b' => some '\x08'
  | 'f' => some '\x0C'
  | 'n' => some '\n'
  | 'r' => some '\r'
  | 't' => some '\t'
  | _ => none

def isHighSurrogate (unit : Nat) : Bool :=
  0xD800 ≤ unit && unit < 0xDC00

def isLowSurrogate (unit : Nat) : Bool :=
  0xDC00 ≤ unit && unit < 0xE000

/-- Reads the rest of a string, after its opening quote. The halves of a surrogate pair make one
character, and a half on its own makes none. -/
def readString : Text → Option (List (Option Char) × Text)
  | [] => none
  | '"' :: rest => some ([], rest)
  | '\\' :: 'u' :: a :: b :: c :: d :: '\\' :: 'u' :: e :: f :: g :: h :: rest => do
      let first ← codeUnit? a b c d
      let second ← codeUnit? e f g h
      if isHighSurrogate first && isLowSurrogate second then
        let (read, left) ← readString rest
        let code := 0x10000 + (first - 0xD800) * 0x400 + (second - 0xDC00)
        some (Text.scalar? code :: read, left)
      else
        let (read, left) ← readString ('\\' :: 'u' :: e :: f :: g :: h :: rest)
        some (Text.scalar? first :: read, left)
  | '\\' :: 'u' :: a :: b :: c :: d :: rest => do
      let unit ← codeUnit? a b c d
      let (read, left) ← readString rest
      some (Text.scalar? unit :: read, left)
  | '\\' :: c :: rest => do
      let value ← escaped? c
      let (read, left) ← readString rest
      some (some value :: read, left)
  | c :: rest => do
      if c.toNat < 0x20 || c == '\\' then
        none
      else
        let (read, left) ← readString rest
        some (some c :: read, left)

def ofCharacters (characters : List (Option Char)) : Json :=
  (characters.mapM id).elim .undecodable Json.text

def takeDigits (text : Text) : Text × Text :=
  text.span Text.isDigit

/-- An integer part has no leading zero unless it is zero. -/
def readWhole (text : Text) : Option (Text × Text) :=
  match text with
  | '0' :: rest => if (takeDigits rest).1.isEmpty then some (['0'], rest) else none
  | _ =>
      let (digits, rest) := takeDigits text
      if digits.isEmpty then none else some (digits, rest)

def readFraction (text : Text) : Option (Text × Text) :=
  match text with
  | '.' :: rest =>
      let (digits, left) := takeDigits rest
      if digits.isEmpty then none else some ('.' :: digits, left)
  | _ => some ([], text)

def readExponent (text : Text) : Option (Text × Text) :=
  match text with
  | mark :: rest =>
      if mark == 'e' || mark == 'E' then
        let (sign, unsigned) := Text.takeSign rest
        let (digits, left) := takeDigits unsigned
        if digits.isEmpty then none else some (mark :: (sign ++ digits), left)
      else
        some ([], text)
  | [] => some ([], [])

/-- A number written as an integer is one if it fits in 64 bits, signed or not; a negative zero
does not. -/
def ofLiteral (negative : Bool) (whole rest : Text) : Json :=
  let literal := if negative then '-' :: (whole ++ rest) else whole ++ rest
  match rest, Text.natural? whole with
  | [], some magnitude =>
      if negative then
        if magnitude = 0 ∨ Int64.size / 2 < magnitude then .real literal else .integer (-magnitude)
      else if magnitude < UInt64.size then .integer magnitude
      else .real literal
  | _, _ => .real literal

def readNumber (text : Text) : Option (Json × Text) := do
  let (negative, unsigned) :=
    match text with
    | '-' :: rest => (true, rest)
    | _ => (false, text)
  let (whole, afterWhole) ← readWhole unsigned
  let (fraction, afterFraction) ← readFraction afterWhole
  let (exponent, left) ← readExponent afterFraction
  some (ofLiteral negative whole (fraction ++ exponent), left)

/-- The members of an object; without a value if one of the keys has none. -/
def ofMembers (members : List (List (Option Char) × Json)) : Json :=
  let decoded := members.mapM fun (key, value) =>
    (key.mapM id).map fun key => (String.ofList key, value)
  decoded.elim .undecodable .object

mutual

/-- Reads a value; no text needs more `fuel` than one over its length. -/
def readValue : Nat → Text → Option (Json × Text)
  | 0, _ => none
  | fuel + 1, text =>
      match skipSpace text with
      | 'n' :: 'u' :: 'l' :: 'l' :: rest => some (.null, rest)
      | 't' :: 'r' :: 'u' :: 'e' :: rest => some (.bool true, rest)
      | 'f' :: 'a' :: 'l' :: 's' :: 'e' :: rest => some (.bool false, rest)
      | '"' :: rest => do
          let (characters, left) ← readString rest
          some (ofCharacters characters, left)
      | '[' :: rest =>
          match skipSpace rest with
          | ']' :: left => some (.array [], left)
          | inside => do
              let (items, left) ← readItems fuel inside
              some (.array items, left)
      | '\x7b' :: rest =>
          match skipSpace rest with
          | '\x7d' :: left => some (.object [], left)
          | inside => do
              let (members, left) ← readMembers fuel inside
              some (ofMembers members, left)
      | other => readNumber other

def readItems : Nat → Text → Option (List Json × Text)
  | 0, _ => none
  | fuel + 1, text => do
      let (item, afterItem) ← readValue fuel text
      match skipSpace afterItem with
      | ',' :: rest => do
          let (items, left) ← readItems fuel rest
          some (item :: items, left)
      | ']' :: left => some ([item], left)
      | _ => none

def readMembers : Nat → Text → Option (List (List (Option Char) × Json) × Text)
  | 0, _ => none
  | fuel + 1, text => do
      match skipSpace text with
      | '"' :: rest => do
          let (key, afterKey) ← readString rest
          match skipSpace afterKey with
          | ':' :: afterColon => do
              let (value, afterValue) ← readValue fuel afterColon
              match skipSpace afterValue with
              | ',' :: rest => do
                  let (members, left) ← readMembers fuel rest
                  some ((key, value) :: members, left)
              | '\x7d' :: left => some ([(key, value)], left)
              | _ => none
          | _ => none
      | _ => none

end

/-- The value that a whole text stands for. -/
def read? (text : Text) : Option Json := do
  let (value, left) ← readValue (text.length + 1) text
  if (skipSpace left).isEmpty then some value else none

/-- The nesting that readers of values accept. -/
def maxLevels : Nat := 127

mutual

/-- Whether a value has at most so many levels, and whether all in it can be decoded. -/
def isSound (levels : Nat) : Json → Bool
  | .undecodable => false
  | .real literal => ! Text.exceedsBinary64 literal
  | .array items =>
      match levels with
      | 0 => false
      | levels + 1 => areSound levels items
  | .object members =>
      match levels with
      | 0 => false
      | levels + 1 => areSoundMembers levels members
  | _ => true

def areSound (levels : Nat) : List Json → Bool
  | [] => true
  | item :: rest => item.isSound levels && areSound levels rest

def areSoundMembers (levels : Nat) : List (String × Json) → Bool
  | [] => true
  | (_, value) :: rest => value.isSound levels && areSoundMembers levels rest

end

end HclEdit.Json
