import HclEdit.Shell.Word.Reader

/-!
Reading commands, one complete line of them at a time. Lists of commands occur within commands and
within words; they are read by the reader of lists, which is passed in.
-/

namespace HclEdit.Shell.Command

open Reading

/-- What a list of commands is read for: a line of its own, the inside of a command, which may not
be empty, or the inside of a substitution or a branch, which may. -/
inductive ListKind where
  | line
  | inside
  | optional
deriving DecidableEq

abbrev ListReader := ListKind → Reading (Option Command)

/-- The words that stand for more than themselves in front of a command. -/
def reservedWords : List Octets :=
  ["!", "case", "do", "done", "elif", "else", "esac", "fi", "for", "if", "in", "then", "until",
    "while", "\x7b", "\x7d"].map String.toList

/-- The tokens that end a list inside a command. -/
def endsList : Token → Bool
  | .finish => true
  | .operator name => [")".toList, ";;".toList].contains name
  | .reserved name =>
      ["do", "done", "elif", "else", "esac", "fi", "then", "\x7d"].any (·.toList == name)
  | _ => false

/-- The utilities that belong to the shell's own grammar; no function may have such a name. -/
def specialNames : List Octets :=
  [".", ":", "break", "continue", "eval", "exec", "exit", "export", "local", "readonly", "return",
    "set", "shift", "times", "trap", "unset"].map String.toList

/-- Reads the documents that are due on the lines from here. -/
def readDocuments (lists : ListReader) : List PendingDocument → Reading Unit
  | [] => return
  | due :: rest => do
      let document ← Word.readDocument (lists .optional) due
      modify fun source =>
        { source with documents := source.documents ++ [(due.number, document)] }
      readDocuments lists rest

def finishLine (lists : ListReader) : Reading Unit := do
  let pending := (← get).pending
  modify fun source => { source with pending := [] }
  readDocuments lists pending

def skipComment : Reading Unit :=
  modify fun source => { source with text := source.text.dropWhile (· != '\n') }

/-- The mark of a redirection, after its first character. -/
def readRedirectionMark (first : Char) : Reading RedirectionMark := do
  if first = '>' then
    if ← takeIf '>' then return .file .append
    else if ← takeIf '|' then return .file .overwrite
    else if ← takeIf '&' then return .duplicate
    else return .file .write
  else if ← takeIf '<' then
    return .document (← takeIf '-')
  else if ← takeIf '&' then return .duplicate
  else if ← takeIf '>' then return .file .readWrite
  else return .file .read

/-- Reads a token of which the first character is an operator's. -/
def readOperator (c : Char) : Reading Token := do
  if [';', '&', '|'].contains c then
    return .operator (if ← takeIf c then [c, c] else [c])
  else
    return .operator [c]

/-- Reads a word, or a redirection with the number of its descriptor in front. -/
def readWordToken (lists : ListReader) (isMark : Bool) : Reading Token := do
  let word ← Word.read (lists .optional) isMark
  let number :=
    match word with
    | [] => some none
    | [.plain c] => if isDigit c then some (some (c.toNat - '0'.toNat)) else none
    | _ => none
  match ← peek, number with
  | some c, some descriptor =>
      if c = '<' || c = '>' then
        discard takeRaw
        let mark ← readRedirectionMark c
        return .redirection (descriptor.getD (if c = '>' then 1 else 0)) mark
      else
        return .word word
  | _, _ => return .word word

/-- Reads the next token, whether or not it could be a reserved word. -/
def scan (lists : ListReader) (isMark : Bool) : Nat → Reading Token
  | 0 => return .finish
  | fuel + 1 => do
      match ← peek with
      | none => return .finish
      | some c =>
          if c = ' ' || c = '\t' then
            discard takeRaw
            scan lists isMark fuel
          else if c = '#' then
            skipComment
            scan lists isMark fuel
          else if c = '\n' then
            discard takeRaw
            return .newline
          else if [';', '&', '|', '(', ')'].contains c then
            discard takeRaw
            readOperator c
          else
            readWordToken lists isMark

/-- How a token is read: whether line ends are passed over, whether reserved words are recognised,
and whether it is the mark of a document. -/
structure TokenMode where
  skipsLines : Bool := false
  reserves : Bool := false
  isMark : Bool := false

def plainMode : TokenMode :=
  ⟨false, false, false⟩

def commandMode : TokenMode :=
  ⟨false, true, false⟩

def openMode : TokenMode :=
  ⟨true, true, false⟩

def markMode : TokenMode :=
  ⟨false, false, true⟩

def nextToken (lists : ListReader) (mode : TokenMode) : Reading Token := do
  match (← get).pushed with
  | some token =>
      modify fun source => { source with pushed := none }
      return token
  | none => scan lists mode.isMark (← fuel)

/-- Passes over line ends, each with the documents that are due after it. -/
def skipLines (lists : ListReader) (mode : TokenMode) : Nat → Token → Reading Token
  | fuel + 1, .newline => do
      finishLine lists
      skipLines lists mode fuel (← nextToken lists mode)
  | _, token => return token

def readToken (lists : ListReader) (mode : TokenMode) : Reading Token := do
  let first ← nextToken lists mode
  let token ← if mode.skipsLines then skipLines lists mode (← fuel) first else pure first
  match token with
  | .word word =>
      match Word.plain? word with
      | some name =>
          if mode.reserves && reservedWords.contains name then return .reserved name
          else return token
      | none => return token
  | _ => return token

/-- Fails unless the next token is the given one. -/
def expect (lists : ListReader) (mode : TokenMode) (expected : Token) : Reading Unit := do
  let token ← readToken lists mode
  let same :=
    match token, expected with
    | .operator found, .operator name | .reserved found, .reserved name => found == name
    | _, _ => false
  if ! same then
    unexpected token (some expected)

/-- Reads what a redirection leads to. -/
def readRedirection (lists : ListReader) (descriptor : Nat) (mark : RedirectionMark) :
    Reading Redirection := do
  let isDocument := match mark with
    | .document _ => true
    | _ => false
  match ← readToken lists (if isDocument then markMode else plainMode) with
  | .word word =>
      match mark with
      | .file access => return .file descriptor access word
      | .duplicate => return .duplicate descriptor word
      | .document strip =>
          let source ← get
          let due : PendingDocument :=
            ⟨source.nextDocument, Word.unquoted word, strip, ! Word.isQuoted word⟩
          set { source with
            nextDocument := source.nextDocument + 1
            pending := source.pending ++ [due] }
          return .document descriptor due.number
  | token => unexpected token none

/-- Reads the redirections that follow a command. -/
def readRedirections (lists : ListReader) : Nat → Reading (List Redirection)
  | 0 => return []
  | fuel + 1 => do
      match ← readToken lists commandMode with
      | .redirection descriptor mark =>
          let first ← readRedirection lists descriptor mark
          return first :: (← readRedirections lists fuel)
      | token =>
          push token
          return []

/-- A list that is not empty. -/
def readInside (lists : ListReader) : Reading Command := do
  return (← lists .inside).getD default

/-- Reads what follows the condition of a conditional command. -/
def readBranches (lists : ListReader) : Nat → Reading (Command × Option Command)
  | 0 => failWith "Syntax error"
  | fuel + 1 => do
      expect lists plainMode (.ofReserved "then")
      let yes ← readInside lists
      let token ← readToken lists plainMode
      if token.isReserved "elif" then
        let test ← readInside lists
        let (second, no) ← readBranches lists fuel
        return (yes, some (.conditional test second no))
      else if token.isReserved "else" then
        return (yes, some (← readInside lists))
      else
        push token
        return (yes, none)

def readConditional (lists : ListReader) : Reading Command := do
  let test ← readInside lists
  let (yes, no) ← readBranches lists (← fuel)
  expect lists plainMode (.ofReserved "fi")
  return .conditional test yes no

def readLoop (lists : ListReader) (stopsOn : Bool) : Reading Command := do
  let test ← readInside lists
  expect lists plainMode (.ofReserved "do")
  let body ← readInside lists
  expect lists plainMode (.ofReserved "done")
  return .loop stopsOn test body

/-- Reads words up to the token after them. -/
def readWords (lists : ListReader) : Nat → Reading (List Word × Token)
  | 0 => return ([], .finish)
  | fuel + 1 => do
      match ← readToken lists plainMode with
      | .word word =>
          let (words, token) ← readWords lists fuel
          return (word :: words, token)
      | token => return ([], token)

def allParameters : Word :=
  [.parameter ['@'] .value [] true]

def readIteration (lists : ListReader) (line : Nat) : Reading Command := do
  match ← readToken lists plainMode with
  | .word word =>
      match (Word.plain? word).filter isName with
      | none => failWith "Syntax error: Bad for loop variable"
      | some name =>
          let token ← readToken lists openMode
          let words ←
            if token.isReserved "in" then do
              let (words, token) ← readWords lists (← fuel)
              match token with
              | .newline => pure words
              | _ => if token.isOperator ";" then pure words else unexpected token none
            else do
              if ! token.isOperator ";" then push token
              pure [allParameters]
          expect lists openMode (.ofReserved "do")
          let body ← readInside lists
          expect lists plainMode (.ofReserved "done")
          return .iteration line name words body
  | _ => failWith "Syntax error: Bad for loop variable"

/-- The word that a token was read from. -/
def wordOf : Token → Word
  | .word word => word
  | .reserved name => name.map .plain
  | _ => []

/-- Reads the patterns of a branch, with bars between them, up to the closing parenthesis. -/
def readPatterns (lists : ListReader) : Nat → Token → Reading (List Word)
  | 0, token => unexpected token (some (.ofOperator ")"))
  | fuel + 1, token => do
      let next ← readToken lists plainMode
      if next.isOperator "|" then
        let others ← readPatterns lists fuel (← readToken lists plainMode)
        return wordOf token :: others
      else if next.isOperator ")" then
        return [wordOf token]
      else
        unexpected next (some (.ofOperator ")"))

/-- Reads the branches of a choice, of which a token has been read. -/
def readChoices (lists : ListReader) :
    Nat → Token → Reading (List (List Word × Option Command))
  | 0, token => unexpected token (some (.ofReserved "esac"))
  | fuel + 1, token => do
      if token.isReserved "esac" then
        return []
      else
        let first ← if token.isOperator "(" then readToken lists plainMode else pure token
        let patterns ← readPatterns lists (← Reading.fuel) first
        let body ← lists .optional
        let after ← readToken lists openMode
        if after.isReserved "esac" then
          return [(patterns, body)]
        else if after.isOperator ";;" then
          let others ← readChoices lists fuel (← readToken lists openMode)
          return (patterns, body) :: others
        else
          unexpected after (some (.ofOperator ";;"))

def readChoice (lists : ListReader) (line : Nat) : Reading Command := do
  match ← readToken lists plainMode with
  | .word subject =>
      expect lists openMode (.ofReserved "in")
      let branches ← readChoices lists (← fuel) (← readToken lists openMode)
      return .choice line subject branches
  | token => unexpected token (some (.word []))

/-- The parts of a simple command as far as they have been read. -/
structure Gathered where
  assignments : List Word
  words : List Word
  redirections : List Redirection

namespace Gathered

def takeWord (gathered : Gathered) (word : Word) : Gathered :=
  if gathered.words.isEmpty && (Word.assignment? word).isSome then
    { gathered with assignments := gathered.assignments ++ [word] }
  else
    { gathered with words := gathered.words ++ [word] }

/-- The name of the function that parentheses would define here. -/
def soleWord? (gathered : Gathered) : Option Word :=
  match gathered with
  | ⟨[], [word], []⟩ => some word
  | _ => none

def finish (line : Nat) (gathered : Gathered) : Command :=
  .simple line gathered.assignments gathered.words gathered.redirections

end Gathered

/-- Reads a simple command, or a function if parentheses follow its only word; the body of that is
read by the reader of commands. -/
def readSimple (lists : ListReader) (body : Reading Command) (line : Nat) :
    Nat → Gathered → Reading Command
  | 0, gathered => return gathered.finish line
  | fuel + 1, gathered => do
      match ← readToken lists plainMode with
      | .word word => readSimple lists body line fuel (gathered.takeWord word)
      | .redirection descriptor mark =>
          let next ← readRedirection lists descriptor mark
          readSimple lists body line fuel
            { gathered with redirections := gathered.redirections ++ [next] }
      | token =>
          match gathered.soleWord? with
          | some word =>
              if token.isOperator "(" then
                expect lists plainMode (.ofOperator ")")
                match (Word.plain? word).filter fun name =>
                    isName name && ! specialNames.contains name with
                | some name =>
                    let line := (← get).line
                    return .definition line name (← body)
                | none => failWith "Syntax error: Bad function name"
              else
                push token
                return gathered.finish line
          | none =>
              push token
              return gathered.finish line

/-- Adds redirections to a compound command. -/
def withRedirections (line : Nat) (command : Command) : List Redirection → Command
  | [] => command
  | redirections =>
      match command with
      | .subshell line body _ => .subshell line body redirections
      | _ => .redirected line command redirections

/-- Reads a compound command after its first token; nothing for another token. -/
def readCompound? (lists : ListReader) (line : Nat) (token : Token) :
    Reading (Option Command) := do
  if token.isReserved "if" then return some (← readConditional lists)
  else if token.isReserved "while" then return some (← readLoop lists false)
  else if token.isReserved "until" then return some (← readLoop lists true)
  else if token.isReserved "for" then return some (← readIteration lists line)
  else if token.isReserved "case" then return some (← readChoice lists line)
  else if token.isOperator "(" then
    let body ← readInside lists
    expect lists plainMode (.ofOperator ")")
    return some (.subshell line body [])
  else if token.isReserved "\x7b" then
    let body ← readInside lists
    expect lists plainMode (.ofReserved "\x7d")
    return some body
  else return none

/-- Reads a command, in which functions nest to less than `fuel`. -/
def readCommand (lists : ListReader) : Nat → TokenMode → Reading Command
  | 0, _ => failWith "Syntax error"
  | fuel + 1, mode => do
      let line := (← get).line
      let token ← readToken lists mode
      match ← readCompound? lists line token with
      | some command =>
          let redirections ← readRedirections lists (← Reading.fuel)
          return withRedirections line command redirections
      | none =>
          match token with
          | .word _ | .redirection _ _ =>
              push token
              let line := (← get).line
              readSimple lists (readCommand lists fuel openMode) line (← Reading.fuel) ⟨[], [], []⟩
          | _ => unexpected token none

/-- Reads the commands of a pipeline after the first one. -/
def readStages (lists : ListReader) : Nat → Reading (List Command)
  | 0 => return []
  | fuel + 1 => do
      let token ← readToken lists plainMode
      if token.isOperator "|" then
        let stage ← readCommand lists (← Reading.fuel) openMode
        return stage :: (← readStages lists fuel)
      else
        push token
        return []

def readPipeline (lists : ListReader) (mode : TokenMode) : Reading Command := do
  let token ← readToken lists mode
  let negated := token.isReserved "!"
  if ! negated then push token
  let first ← readCommand lists (← fuel) (if negated then commandMode else plainMode)
  let others ← readStages lists (← fuel)
  let command := if others.isEmpty then first else .pipeline (first :: others)
  return if negated then .negation command else command

/-- Reads the pipelines that follow a first one, each of which depends on those before it. -/
def readDependent (lists : ListReader) : Nat → Command → Reading Command
  | 0, first => return first
  | fuel + 1, first => do
      let token ← readToken lists plainMode
      if token.isOperator "&&" then
        readDependent lists fuel (.both first (← readPipeline lists openMode))
      else if token.isOperator "||" then
        readDependent lists fuel (.either first (← readPipeline lists openMode))
      else
        push token
        return first

def after (first : Option Command) (second : Command) : Command :=
  match first with
  | none => second
  | some first => .sequence first second

/-- Reads a list of commands. The token that ends it is left, except for the end of a line that was
asked for. -/
def readListFrom (lists : ListReader) (kind : ListKind) :
    Nat → Option Command → Reading (Option Command)
  | 0, first => return first
  | fuel + 1, first => do
      let token ← readToken lists (if kind = .line then commandMode else openMode)
      match token with
      | .newline =>
          finishLine lists
          return first
      | .finish =>
          finishLine lists
          push token
          return first
      | _ =>
          push token
          let mayEnd := kind = .optional ∨ (kind = .inside ∧ first.isSome)
          if mayEnd ∧ endsList token then
            return first
          else
            let pipeline ← readPipeline lists plainMode
            let command ← readDependent lists (← Reading.fuel) pipeline
            let next ← readToken lists plainMode
            if next.isOperator "&" then
              readListFrom lists kind fuel (some (after first (.background command)))
            else
              let all := some (after first command)
              match next with
              | .finish =>
                  finishLine lists
                  push next
                  return all
              | .newline =>
                  push next
                  readListFrom lists kind fuel all
              | _ =>
                  if next.isOperator ";" then
                    readListFrom lists kind fuel all
                  else if kind = .line then
                    unexpected next none
                  else
                    push next
                    return all

/-- Reads a list with substitutions and commands nested to less than the first number. -/
def readList : Nat → ListReader
  | 0, _ => failWith "Syntax error: too deeply nested"
  | depth + 1, kind => do
      readListFrom (readList depth) kind (← fuel) none

/-- What a script holds next. -/
inductive Line where
  | command (command : Option Command)
  | finish

/-- Reads the next line of commands. -/
def readLine : Reading Line := do
  modify fun source => { source with pushed := none, pending := [] }
  match ← readList (← fuel) .line with
  | some command => return .command (some command)
  | none =>
      match (← get).pushed with
      | some .finish => return .finish
      | _ => return .command none

end HclEdit.Shell.Command
