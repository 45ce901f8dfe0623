import HclEdit.Json.Merge
import HclEdit.Text.Blank
import HclEdit.Text.Number

/-!
Settings from environment variables. The text of a variable is read as a boolean, a number, a quoted
string, a list or a table if all of it has that form, and as plain text otherwise.
-/

namespace HclEdit.Environment

abbrev Variables := List (Text × Text)

/-- The value of a variable, which is given by its exact name. -/
def get? (environment : Variables) (name : Text) : Option Text :=
  environment.lookup name

def isSpace (c : Char) : Bool :=
  c == ' ' || c == '\t' || c == '\n' || c == '\x0C' || c == '\r'

def skipSpace (text : Text) : Text :=
  text.dropWhile isSpace

/-- Text with commas is a list, unless it is quoted or bracketed. -/
def isList (text : Text) : Bool :=
  text.contains ',' && ! ['[', '\x7b', '"', '\''].any (text.head? == some ·)

/-- An integer of 64 bits, signed or not. -/
def wholeNumber? (text : Text) : Option Json := do
  let (sign, digits) := Text.takeSign text
  let magnitude ← Text.natural? digits
  if sign = ['-'] then
    if magnitude ≤ Int64.size / 2 then some (.integer (-magnitude)) else none
  else if magnitude < UInt64.size then
    some (.integer magnitude)
  else
    none

def isExponent : Text → Bool
  | [] => true
  | mark :: rest =>
      let digits := (Text.takeSign rest).2
      (mark == 'e' || mark == 'E') && ! digits.isEmpty && digits.all Text.isDigit

/-- Whether a text with a point in it is a decimal number. -/
def isDecimal (text : Text) : Bool :=
  let (whole, rest) := (Text.takeSign text).2.span Text.isDigit
  match rest with
  | '.' :: after =>
      let (fraction, tail) := after.span Text.isDigit
      ! (whole.isEmpty && fraction.isEmpty) && isExponent tail
  | _ => false

/-- The value of text without quotes and brackets. A number out of range is no value. -/
def bareValue (text : Text) : Json :=
  if isDecimal text then (if Text.exceedsBinary64 text then .null else .real text)
  else (wholeNumber? text).getD (.text text)

/-- Whether a character may stand in quotes as it is. -/
def isPlain (c : Char) : Bool :=
  c == '\t' || (0x20 ≤ c.toNat && c.toNat != 0x7F)

def readCode? (count : Nat) (text : Text) : Option (Char × Text) := do
  if text.length < count then
    none
  else
    let c ← Text.scalar? (← Text.hexNumber? (text.take count))
    some (c, text.drop count)

/-- Reads an escape after its backslash. -/
def readEscape? : Text → Option (Char × Text)
  | '"' :: rest => some ('"', rest)
  | '\\' :: rest => some ('\\', rest)
  | 'b' :: rest => some ('\x08', rest)
  | 'f' :: rest => some ('\x0C', rest)
  | 'n' :: rest => some ('\n', rest)
  | 'r' :: rest => some ('\r', rest)
  | 't' :: rest => some ('\t', rest)
  | 'u' :: rest => readCode? 4 rest
  | 'U' :: rest => readCode? 8 rest
  | _ => none

/-- Undoes the escapes of a text that stood in quotes. -/
def unescape? : Nat → Text → Option Text
  | _, [] => some []
  | 0, _ => none
  | fuel + 1, '\\' :: rest => do
      let (c, after) ← readEscape? rest
      (unescape? fuel after).map (c :: ·)
  | fuel + 1, c :: rest => if isPlain c then (unescape? fuel rest).map (c :: ·) else none

/-- Splits a text at the quote that ends it; a quote after a backslash does not. -/
def splitQuoted? : Text → Option (Text × Text)
  | [] => none
  | '"' :: rest => some ([], rest)
  | '\\' :: c :: rest => (splitQuoted? rest).map fun (inner, left) => ('\\' :: c :: inner, left)
  | c :: rest => (splitQuoted? rest).map fun (inner, left) => (c :: inner, left)

/-- Reads the rest of a string, after its opening quote. -/
def readString? (text : Text) : Option (Text × Text) := do
  let (inner, left) ← splitQuoted? text
  some (← unescape? inner.length inner, left)

/-- Takes a word from the front of a text, in any case. -/
def takeWord? (word : String) (text : Text) : Option Text :=
  let letters := word.toList
  if (text.take letters.length).map Char.toLower = letters then some (text.drop letters.length)
  else none

def isKeyChar (c : Char) : Bool :=
  c.isAlphanum || c == '_' || c == '-'

def readKey? (text : Text) : Option (Text × Text) :=
  match text with
  | '"' :: rest => readString? rest
  | _ =>
      let (key, left) := text.span isKeyChar
      if key.isEmpty then none else some (key, left)

def isBare (c : Char) : Bool :=
  ! [',', '\x7b', '\x7d', '[', ']'].contains c

mutual

/-- Reads a value and the blanks around it. -/
def readValue? : Nat → Text → Option (Json × Text)
  | 0, _ => none
  | fuel + 1, text =>
      let trimmed := skipSpace text
      let read : Option (Json × Text) :=
        match takeWord? "true" trimmed, takeWord? "false" trimmed with
        | some left, _ => some (.bool true, left)
        | none, some left => some (.bool false, left)
        | none, none =>
            match trimmed with
            | '\x7b' :: rest =>
                (readFields? fuel rest).map fun (members, left) => (.object members, left)
            | '[' :: rest => (readItems? fuel rest).map fun (items, left) => (.array items, left)
            | '"' :: rest => (readString? rest).map fun (value, left) => (Json.text value, left)
            | '\'' :: c :: '\'' :: left => some (.text [c], left)
            | '\'' :: _ => none
            | _ =>
                let (bare, left) := trimmed.span isBare
                some (bareValue (Text.trim bare), left)
      read.map fun (value, left) => (value, skipSpace left)

/-- Reads the items of a list up to its end; a comma may follow the last. -/
def readItems? : Nat → Text → Option (List Json × Text)
  | 0, _ => none
  | fuel + 1, text =>
      match text with
      | ']' :: left => some ([], left)
      | _ => do
          let (item, after) ← readValue? fuel text
          match after with
          | ',' :: rest =>
              let (items, left) ← readItems? fuel rest
              some (item :: items, left)
          | ']' :: left => some ([item], left)
          | _ => none

def readFields? : Nat → Text → Option (List (String × Json) × Text)
  | 0, _ => none
  | fuel + 1, text =>
      match text with
      | '\x7d' :: left => some ([], left)
      | _ => do
          let (key, afterKey) ← readKey? (skipSpace text)
          match skipSpace afterKey with
          | '=' :: rest =>
              let (value, after) ← readValue? fuel rest
              match after with
              | ',' :: rest =>
                  let (members, left) ← readFields? fuel rest
                  some ((String.ofList key, value) :: members, left)
              | '\x7d' :: left => some ([(String.ofList key, value)], left)
              | _ => none
          | _ => none

end

/-- The value that the text of a variable stands for. -/
def read (text : Text) : Json :=
  let trimmed := Text.trim text
  if isList trimmed then
    .array ((trimmed.pieces (· == ',')).map fun item => .text (Text.trim item))
  else
    match readValue? (2 * trimmed.length + 2) trimmed with
    | some (value, []) => value
    | _ => .text trimmed

/-- Splits a name at dots and at double underscores. -/
def nameParts : Text → List Text
  | [] => [[]]
  | '_' :: '_' :: rest => [] :: nameParts rest
  | '.' :: rest => [] :: nameParts rest
  | c :: rest =>
      match nameParts rest with
      | [] => [[c]]
      | part :: others => (c :: part) :: others

/-- The setting that a name leads to: what follows `TERRAIN_`, in any case. -/
def settingPath? (name : Text) : Option (List String) :=
  let lowered := (Text.trim name).map Char.toLower
  let start := "terrain_".toList
  let parts := nameParts (lowered.drop start.length)
  if start.isPrefixOf lowered && ! parts.any (·.isEmpty) then some (parts.map String.ofList)
  else none

/-- A value inside tables of one member each. -/
def nest (path : List String) (value : Json) : Json :=
  path.foldr (fun key inner => .object [(key, inner)]) value

/-- What all variables set together; a later variable counts more. -/
def settings (environment : Variables) : Json :=
  environment.foldl (fun settings (name, text) =>
    match settingPath? name with
    | some path => settings.overlay (nest path (read text))
    | none => settings) (.object [])

end HclEdit.Environment
