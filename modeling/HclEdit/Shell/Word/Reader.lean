import HclEdit.Shell.Source

/-!
Reading words and their parts. Commands in a word are read by the reader of commands, which is
passed in.
-/

namespace HclEdit.Shell

/-- What surrounds the characters of a word. -/
inductive Surrounding where
  | bare
  | mark
  | quotes (inBraces : Bool)
  | document
  | arithmetic
  | braces (quoted : Bool)
deriving DecidableEq

namespace Surrounding

/-- Whether characters lose their special meaning here. -/
def isQuoted : Surrounding → Bool
  | bare | mark => false
  | braces quoted => quoted
  | quotes _ | document | arithmetic => true

/-- Whether a backslash stands for itself in front of a character. -/
def keepsBackslash (surrounding : Surrounding) (c : Char) : Bool :=
  let plain := c != '\\' && c.toNat != 0x60 && c != '$'
  match surrounding with
  | bare | mark | braces false => false
  | quotes inBraces => plain && c != '"' && (c != '\x7d' || ! inBraces)
  | document => plain
  | arithmetic => plain && c != '"'
  | braces true => plain && c != '"' && c != '\x7d'

/-- What is around the word in braces that follows a parameter. -/
def inBraces (surrounding : Surrounding) (trims : Bool) : Surrounding :=
  if trims then braces false
  else
    match surrounding with
    | bare | mark => braces false
    | braces quoted => braces quoted
    | quotes _ | document | arithmetic => braces true

end Surrounding

def isBackquote (c : Char) : Bool :=
  c.toNat == 0x60

/-- The characters that end a word. -/
def endsWord (c : Char) : Bool :=
  ['\n', ' ', '\t', ';', '&', '|', '<', '>', '(', ')'].contains c

/-- The names of parameters that are a single mark. -/
def isSpecialName (c : Char) : Bool :=
  ['!', '#', '$', '*', '-', '?', '@'].contains c || isDigit c

def character (quoted : Bool) (c : Char) : Part :=
  if quoted then .quoted c else .plain c

/-- Double quotes around all parameters alone do not make a field of their own. -/
def inQuotes (parts : Word) : Word :=
  match parts with
  | [.parameter ['@'] .value _ _] => parts
  | _ => .quoteMark :: (parts ++ [.quoteMark])

namespace Word

open Reading

abbrev CommandReader := Reading (Option Command)

/-- Reads a string in single quotes, after the first of them. -/
def readSingle : Nat → Reading Word
  | 0 => failWith "Syntax error: Unterminated quoted string"
  | fuel + 1 => do
      match ← takeRaw with
      | none => failWith "Syntax error: Unterminated quoted string"
      | some '\'' => return [.quoteMark]
      | some c => return .quoted c :: (← readSingle fuel)

/-- Reads the text of a command in backquotes, after the first of them. -/
def readBackquoted (quoted : Bool) : Nat → Reading Octets
  | 0 => failWith "Syntax error: EOF in backquote substitution"
  | fuel + 1 => do
      match ← take with
      | none => failWith "Syntax error: EOF in backquote substitution"
      | some '\\' => do
          match ← takeRaw with
          | none => failWith "Syntax error: EOF in backquote substitution"
          | some c =>
              let rest ← readBackquoted quoted fuel
              if c = '\\' || isBackquote c || c = '$' || (quoted && c = '"') then return c :: rest
              else return '\\' :: c :: rest
      | some c => if isBackquote c then return [] else return c :: (← readBackquoted quoted fuel)

/-- Reads the rest of a backslash escape. -/
def readEscape (surrounding : Surrounding) : Reading Word := do
  match ← takeRaw with
  | none => return [.quoted '\\']
  | some c =>
      if surrounding.keepsBackslash c then return [.quoted '\\', .quoted c]
      else return [.quoted c]

/-- Runs a reader on a text of its own, with its own count of lines. -/
def within {α : Type} (text : Octets) (reader : Reading α) : Reading α := do
  let outer ← get
  set { outer with text, line := 1, pushed := none, pending := [] }
  let result ← reader
  modify fun inner =>
    { inner with
      text := outer.text
      line := outer.line
      pushed := outer.pushed
      pending := outer.pending }
  return result

/-- Gives documents that are due without a line that could follow no text. -/
def dropDocuments : Reading Unit :=
  modify fun source =>
    { source with
      documents := source.documents ++ source.pending.map fun due => (due.number, [])
      pending := [] }

/-- Reads a command in backquotes. -/
def readBackquotes (commands : CommandReader) (quoted : Bool) : Reading Part := do
  let text ← readBackquoted quoted (← fuel)
  let body ← within text do
    let body ← commands
    dropDocuments
    return body
  return .command body quoted

/-- Reads a command in parentheses, up to the closing one. -/
def readParenthesised (commands : CommandReader) (quoted : Bool) : Reading Part := do
  let outer := (← get).pending
  modify fun source => { source with pending := [] }
  let body ← commands
  let token := (← get).pushed.getD .finish
  if token.isOperator ")" then
    modify fun source => { source with pushed := none }
    dropDocuments
    modify fun source => { source with pending := outer }
    return .command body quoted
  else
    unexpected token (some (.ofOperator ")"))

/-- Takes the next character, whatever it is; a line end is not counted. -/
def takeUncounted : Reading (Option Char) := do
  Reading.join
  let source ← get
  set { source with text := source.text.tail }
  return source.text.head?

/-- Reads what stands between the name of a parameter in braces and the word for it. -/
def readUse : Reading (Use × Bool) := do
  match ← takeUncounted with
  | some '\x7d' => return (.value, false)
  | some '%' => return (.trimEnd (← takeIf '%'), true)
  | some '#' => return (.trimStart (← takeIf '#'), true)
  | some ':' =>
      match ← takeUncounted with
      | some '-' => return (.default true, true)
      | some '+' => return (.alternative true, true)
      | some '?' => return (.failure true, true)
      | some '=' => return (.assignment true, true)
      | _ => return (.invalid, true)
  | some '-' => return (.default false, true)
  | some '+' => return (.alternative false, true)
  | some '?' => return (.failure false, true)
  | some '=' => return (.assignment false, true)
  | _ => return (.invalid, true)

/-- Reads the name of a parameter, of as many characters as belong to it. -/
def readName : Reading Octets := do
  match ← peek with
  | some c =>
      if isNameStart c then takeWhile isNameChar (← fuel)
      else if isDigit c then takeWhile isDigit (← fuel)
      else if isSpecialName c then
        discard takeRaw
        return [c]
      else return []
  | none => return []

/-- Reads a parameter after its opening brace: name, use, and whether a word follows. -/
def readBraced : Reading (Octets × Use × Bool) := do
  let name ← readName
  if name = ['#'] then
    match ← peek with
    | some c =>
        if isNameChar c then
          let name ← readName
          if ← takeIf '\x7d' then return (name, .length, false)
          else return (name, .invalid, true)
        else
          discard takeRaw
          match ← peek with
          | some '\x7d' =>
              if c = '\x7d' then
                return (name, .value, false)
              else if isSpecialName c then
                discard takeRaw
                return ([c], .length, false)
              else
                discard takeRaw
                return ([c], .invalid, false)
          | _ => do
              modify fun source => { source with text := c :: source.text }
              let (use, hasWord) ← readUse
              return (name, use, hasWord)
    | none => return (name, .invalid, true)
  else if name.isEmpty then
    if (← peek) ≠ some '\x7d' then
      discard takeUncounted
    return (name, .invalid, true)
  else
    let (use, hasWord) ← readUse
    return (name, use, hasWord)

def Use.trims : Use → Bool
  | .trimStart _ | .trimEnd _ => true
  | _ => false

/-- Fails at the end of the text, where something is still open. The quotes in a document need not
be closed. -/
def failAtEnd {α : Type} (inDocument : Bool) : Surrounding → Reading α
  | .arithmetic => failWith "Syntax error: Missing '))'"
  | .braces false => failWith "Syntax error: Missing '\x7d'"
  | _ =>
      if inDocument then failWith "Syntax error: Missing '\x7d'"
      else failWith "Syntax error: Unterminated quoted string"

/-- How the reading of a document goes on at the start of a line. -/
structure DocumentMark where
  mark : Octets
  strip : Bool

/-- Whether the mark of a document stands alone on the next line; it is passed over then. -/
def atDocumentEnd (due : DocumentMark) : Reading Bool := do
  if due.strip then
    modify fun source => { source with text := source.text.dropWhile (· == '\t') }
  let source ← get
  if due.mark.isPrefixOf source.text then
    match source.text.drop due.mark.length with
    | [] =>
        set { source with text := [], line := source.line + 1 }
        return true
    | '\n' :: rest =>
        set { source with text := rest, line := source.line + 1 }
        return true
    | _ => return false
  else
    return false

mutual

/-- Reads the parts of a word up to what ends it here. In quotes and braces the closing mark is
passed over; `open` counts the parentheses in an arithmetic expression that are still open, and
tells within quoted braces whether quotes are. -/
def readParts (commands : CommandReader) (due : Option DocumentMark) :
    Nat → Surrounding → Nat → Reading Word
  | 0, surrounding, _ => failAtEnd due.isSome surrounding
  | fuel + 1, surrounding, depth => do
      let onwards (part : Part) : Reading Word := do
        return part :: (← readParts commands due fuel surrounding depth)
      match ← peek with
      | none =>
          match surrounding with
          | .bare | .mark | .document => return []
          | _ => failAtEnd due.isSome surrounding
      | some c =>
          if (surrounding = .bare ∨ surrounding = .mark) ∧ endsWord c then
            return []
          else
            discard takeRaw
            if c = '\\' then
              return (← readEscape surrounding) ++
                (← readParts commands due fuel surrounding depth)
            else if c = '\'' ∧ (surrounding.isQuoted = false) then
              let inner ← readSingle (← Reading.fuel)
              return .quoteMark :: (inner ++ (← readParts commands due fuel surrounding depth))
            else if c = '"' then
              match surrounding with
              | .quotes _ => return []
              | .document | .arithmetic => onwards (.quoted c)
              | .braces true => return .quoteMark ::
                  (← readParts commands due fuel surrounding (1 - depth))
              | _ =>
                  let inner ← readParts commands due fuel (.quotes (surrounding = .braces false)) 0
                  return inQuotes inner ++ (← readParts commands due fuel surrounding depth)
            else if c = '$' then
              if surrounding = .mark then onwards (.plain c)
              else
                let part ← readDollar commands due fuel surrounding
                onwards part
            else if isBackquote c then
              if surrounding = .mark then onwards (.plain c)
              else onwards (← readBackquotes commands surrounding.isQuoted)
            else if c = '\x7d' ∧ (surrounding = .braces false ∨
                (surrounding = .braces true ∧ depth = 0)) then
              return []
            else if surrounding = .arithmetic ∧ c = '(' then
              return .quoted c :: (← readParts commands due fuel surrounding (depth + 1))
            else if surrounding = .arithmetic ∧ c = ')' then
              if 0 < depth then
                return .quoted c :: (← readParts commands due fuel surrounding (depth - 1))
              else if ← takeIf ')' then
                return []
              else
                onwards (.quoted c)
            else if c = '\n' then
              if ← due.elim (pure false) atDocumentEnd then
                if surrounding = .document then return [.quoted c]
                else failAtEnd due.isSome surrounding
              else
                onwards (character surrounding.isQuoted c)
            else
              onwards (character surrounding.isQuoted c)

/-- Reads an expansion after its dollar sign; a dollar sign may also stand for itself. -/
def readDollar (commands : CommandReader) (due : Option DocumentMark) :
    Nat → Surrounding → Reading Part
  | 0, surrounding => failAtEnd due.isSome surrounding
  | fuel + 1, surrounding => do
      let quoted := surrounding.isQuoted
      match ← peek with
      | some '(' =>
          discard takeRaw
          if ← takeIf '(' then
            return .arithmetic (← readParts commands due fuel .arithmetic 0) quoted
          else
            readParenthesised commands quoted
      | some '\x7b' =>
          discard takeRaw
          let (name, use, hasWord) ← readBraced
          if hasWord then
            let inner := surrounding.inBraces (Use.trims use)
            return .parameter name use (← readParts commands due fuel inner 0) quoted
          else
            return .parameter name use [] quoted
      | some c =>
          if isNameStart c then
            return .parameter (← takeWhile isNameChar (← Reading.fuel)) .value [] quoted
          else if isSpecialName c then
            discard takeRaw
            return .parameter [c] .value [] quoted
          else
            return character quoted '$'
      | none => return character quoted '$'

end

/-- Reads a word without quotes around it. The mark of a document is a word in which dollar signs
and backquotes stand for themselves. -/
def read (commands : CommandReader) (isMark : Bool) : Reading Word := do
  readParts commands none (← Reading.fuel) (if isMark then .mark else .bare) 0

/-- Reads a document without expansions, line by line. -/
def readVerbatim (due : DocumentMark) : Nat → Reading Word
  | 0 => return []
  | fuel + 1 => do
      match ← takeRaw with
      | none => return []
      | some '\n' =>
          if ← atDocumentEnd due then return [.quoted '\n']
          else return .quoted '\n' :: (← readVerbatim due fuel)
      | some c => return .quoted c :: (← readVerbatim due fuel)

/-- Reads a document, up to the line with its mark. -/
def readDocument (commands : CommandReader) (pending : PendingDocument) : Reading Word := do
  let due : DocumentMark := ⟨pending.mark, pending.strip⟩
  if ← atDocumentEnd due then
    return []
  else if pending.expands then
    readParts commands (some due) (← Reading.fuel) .document 0
  else
    readVerbatim due (← Reading.fuel)

end Word

end HclEdit.Shell
