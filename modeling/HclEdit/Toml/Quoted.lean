import HclEdit.Text.Number
import HclEdit.Toml.Space

/-!
The strings of TOML, in single or double quotes, on one line or over several, and the keys, which
may be strings too.
-/

namespace HclEdit.Toml

/-- Reads an escape, after its backslash. -/
def readEscape? : Text → Option (Char × Text)
  | 'b' :: rest => some ('\x08', rest)
  | 't' :: rest => some ('\t', rest)
  | 'n' :: rest => some ('\n', rest)
  | 'f' :: rest => some ('\x0C', rest)
  | 'r' :: rest => some ('\r', rest)
  | '"' :: rest => some ('"', rest)
  | '\\' :: rest => some ('\\', rest)
  | 'u' :: rest => digits 4 rest
  | 'U' :: rest => digits 8 rest
  | _ => none
where
  digits (count : Nat) (text : Text) : Option (Char × Text) := do
    if text.length < count then
      none
    else
      let c ← Text.scalar? (← Text.hexNumber? (text.take count))
      some (c, text.drop count)

def readBasic? : Nat → Text → Option (Text × Text)
  | 0, _ => none
  | _, [] => none
  | _, '"' :: rest => some ([], rest)
  | fuel + 1, '\\' :: rest => do
      let (c, after) ← readEscape? rest
      let (read, left) ← readBasic? fuel after
      some (c :: read, left)
  | fuel + 1, c :: rest =>
      if isControl c then none
      else (readBasic? fuel rest).map fun (read, left) => (c :: read, left)

def readLiteral? (text : Text) : Option (Text × Text) :=
  let (read, after) := text.span fun c => c != '\'' && ! isControl c
  match after with
  | '\'' :: left => some (read, left)
  | _ => none

/-- Counts the quotes at the front of a text, up to five. -/
def quotesAt (quote : Char) (text : Text) : Nat :=
  ((text.take 5).takeWhile (· == quote)).length

/-- Skips what a backslash at the end of a line joins: all blanks and line ends after it. -/
def skipJoined? (text : Text) : Option Text :=
  (takeNewline? (skipSpace text)).map fun after => skipBlankLines after.length after

/-- Reads the rest of a string over several lines; up to two quotes may stand before the end. -/
def readMultiline? (quote : Char) : Nat → Text → Option (Text × Text)
  | 0, _ => none
  | fuel + 1, text =>
      let quotes := quotesAt quote text
      if 3 ≤ quotes then
        some (List.replicate (quotes - 3) quote, text.drop quotes)
      else
        match text with
        | [] => none
        | '\r' :: '\n' :: rest => more fuel '\n' rest
        | '\n' :: rest => more fuel '\n' rest
        | c :: rest =>
            if c == '\\' && quote == '"' then
              match skipJoined? rest with
              | some after => readMultiline? quote fuel after
              | none => do
                  let (escaped, after) ← readEscape? rest
                  more fuel escaped after
            else if isControl c then none
            else more fuel c rest
where
  more (fuel : Nat) (c : Char) (rest : Text) : Option (Text × Text) :=
    (readMultiline? quote fuel rest).map fun (read, left) => (c :: read, left)

def skipFirstNewline (text : Text) : Text :=
  (takeNewline? text).getD text

def readString? (text : Text) : Option (Text × Text) :=
  match text with
  | '"' :: '"' :: '"' :: rest => readMultiline? '"' (rest.length + 1) (skipFirstNewline rest)
  | '\'' :: '\'' :: '\'' :: rest => readMultiline? '\'' (rest.length + 1) (skipFirstNewline rest)
  | '"' :: rest => readBasic? (rest.length + 1) rest
  | '\'' :: rest => readLiteral? rest
  | _ => none

def isBareKey (c : Char) : Bool :=
  c.isAlphanum || c == '_' || c == '-'

def readSimpleKey? (text : Text) : Option (String × Text) :=
  match text with
  | '"' :: rest =>
      (readBasic? (rest.length + 1) rest).map fun (key, left) => (String.ofList key, left)
  | '\'' :: rest => (readLiteral? rest).map fun (key, left) => (String.ofList key, left)
  | _ =>
      let (key, left) := text.span isBareKey
      if key.isEmpty then none else some (String.ofList key, left)

/-- Reads names with dots between them. -/
def readNames? : Nat → Text → Option (List String × Text)
  | 0, _ => none
  | fuel + 1, text => do
      let (key, after) ← readSimpleKey? (skipSpace text)
      match skipSpace after with
      | '.' :: rest =>
          let (keys, left) ← readNames? fuel rest
          some (key :: keys, left)
      | left => some ([key], left)

/-- What nests to this depth is refused, and so are keys of as many names. -/
def maxDepth : Nat := 80

/-- Reads a key of one or more names. -/
def readKey? (text : Text) : Option (List String × Text) :=
  (readNames? (text.length + 1) text).filter (·.1.length < maxDepth)

end HclEdit.Toml
