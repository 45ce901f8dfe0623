import HclEdit.Shell.Pattern
import HclEdit.Shell.Script

/-!
Expanding words: parameters, arithmetic and the output of commands are put in, what they bring is
split into fields, and fields that are patterns become the names of files.
-/

namespace HclEdit.Shell

/-- A piece of an expanded word: a character, a quote that stands for nothing, or the border between
two fields. -/
inductive Piece where
  | character (c : Char) (quoted : Bool)
  | mark
  | border
deriving DecidableEq

/-- Whether pieces are split into fields: not at all, at separators, or at borders only. What is
written in braces is split like the value of a parameter. -/
inductive Splitting where
  | never
  | written
  | separators
  | borders
deriving DecidableEq

/-- Pieces that are split alike. -/
structure Segment where
  splitting : Splitting
  pieces : List Piece

namespace Segment

/-- Adds segments after others; what is written in one go is one segment. -/
def append : List Segment → List Segment → List Segment
  | [], later => later
  | [first], later =>
      match later with
      | second :: rest =>
          if first.splitting = .written ∧ second.splitting = .written then
            ⟨.written, first.pieces ++ second.pieces⟩ :: rest
          else first :: later
      | [] => [first]
  | first :: rest, later => first :: append rest later

end Segment

/-- What a word is expanded for. With `full` it may become any number of fields; `inBraces` tells
that it follows a parameter in braces. -/
structure Purpose where
  full : Bool
  inBraces : Bool

namespace Expansion

open Act

def piecesOf (quoted : Bool) (text : Octets) : List Piece :=
  text.map (.character · quoted)

/-- The characters of pieces, with the marks whether they are quoted. -/
def marked (pieces : List Piece) : List Marked :=
  pieces.filterMap fun
    | .character c quoted => some (c, quoted)
    | _ => none

def textOf (pieces : List Piece) : Octets :=
  (marked pieces).map (·.1)

def flatten (segments : List Segment) : List Piece :=
  segments.flatMap (·.pieces)

/-- The letters of the options, in the order in which they are shown. -/
def optionLetters : List Char :=
  ['p', 'u', 'b', 'a', 'C', 'E', 'V', 'v', 'x', 's', 'n', 'm', 'i', 'I', 'f', 'e']

def joinPieces (between : List Piece) : List (List Piece) → List Piece
  | [] => []
  | [pieces] => pieces
  | pieces :: others => pieces ++ between ++ joinPieces between others

/-- All parameters in a row, with what separates them. -/
def allParameters (full quoted isList : Bool) : Act (List Piece) := do
  let first := ((← separators).head?.map (Piece.character · quoted)).toList
  let between := if full && (! quoted || isList) then [.border] else first
  return joinPieces between ((← shell).arguments.map (piecesOf quoted))

/-- What a parameter stands for, if it is set. -/
def parameter? (full quoted : Bool) (name : Octets) : Act (Option (List Piece)) := do
  let shell ← shell
  let pieces := piecesOf quoted
  match name with
  | ['@'] => return some (← allParameters full quoted true)
  | ['*'] => return some (← allParameters full quoted false)
  | ['#'] => return some (pieces (Text.decimal shell.arguments.length))
  | ['?'] => return some (pieces (Text.decimal shell.status))
  | ['$'] => return some (pieces (Text.decimal shell.number))
  | ['!'] => return shell.background.map fun number => pieces (Text.decimal number)
  | ['-'] => return some (pieces (optionLetters.filter shell.options.contains))
  | _ =>
      match Text.natural? name with
      | some 0 => return some (pieces shell.name)
      | some number => return (shell.arguments[number - 1]?).map pieces
      | none => return (← valueOf? name).map pieces

/-- Gives up because a parameter is not set. -/
def failUnset {α : Type} (name reason : Octets) : Act α :=
  fail (name ++ ": ".toList ++ reason)

def notSet (orEmpty : Bool) : Octets :=
  "parameter not set".toList ++ if orEmpty then " or null".toList else []

/-- Runs a command with its output collected, and gives the output without the line ends that it
ends with. -/
def outputOf (again : Evaluator) (body : Option Command) : Act Octets := do
  match body with
  | none => return []
  | some command =>
      let pipe := (← world).pipes.size
      modifyWorld fun world => { world with pipes := world.pipes.push [] }
      let file ← newFile (.pipe pipe) .write
      let status ← Script.inSubshell again do
        setDescriptor 1 (some file)
        again command false
      modifyShell fun shell => { shell with substituted := status }
      let output := (((← world).pipes[pipe]?).getD []).filter (· != '\x00')
      return (output.reverse.dropWhile (· == '\n')).reverse

/-- The value of an arithmetic expression. -/
def calculate (text : Octets) : Act Int := do
  let bindings := (← shell).bindings
  let lookup (name : Octets) : Option Octets := (bindings.lookup name).bind (·.value)
  let (result, set) := Arithmetic.evaluate lookup text
  for (name, value) in set.reverse do
    setVariable name (intText value) false
  match result with
  | .ok value => return value
  | .error (.illegalNumber number) => fail ("Illegal number: ".toList ++ number)
  | .error (.malformed reason) =>
      fail ("arithmetic expression: ".toList ++ reason.toList ++ ": \"".toList ++ text ++ ['"'])
where
  intText (value : Int) : Octets :=
    if value < 0 then '-' :: Text.decimal value.natAbs else Text.decimal value.natAbs

/-- The directory that a tilde with a name after it stands for, if there is one. -/
def homeOf (name : Octets) : Act (Option Octets) := do
  if name.isEmpty then valueOf? "HOME".toList
  else if name = "root".toList then return some "/root".toList
  else return none

/-- Puts in the home directory at the front of a word; with `colons` its name ends at a colon
too. -/
def expandTilde (colons : Bool) (word : Word) : Act Word := do
  match word with
  | .plain '~' :: rest =>
      let ends : Part → Bool
        | .plain c => c == '/' || (colons && c == ':')
        | _ => false
      let isPlain : Part → Bool
        | .plain _ => true
        | _ => false
      let name := rest.takeWhile fun part => isPlain part && ! ends part
      let after := rest.drop name.length
      if after.head?.all ends then
        match ← homeOf (Word.unquoted name) with
        | some home => return home.map .quoted ++ after
        | none => return word
      else
        return word
  | _ => return word

/-- Puts in home directories at the front of the value of a variable and after its colons. -/
def expandTildes (word : Word) : Act Word := do
  expandTilde true (← onwards word)
where
  onwards : Word → Act Word
    | [] => return []
    | .plain ':' :: rest => do
        let rest ← onwards rest
        return .plain ':' :: (← expandTilde true rest)
    | part :: rest => return part :: (← onwards rest)

mutual

def expandPart (again : Evaluator) (purpose : Purpose) : Part → Act (List Segment)
  | .plain c =>
      return [⟨if purpose.inBraces then .written else .never, [.character c false]⟩]
  | .quoted c => return [⟨.never, [.character c true]⟩]
  | .quoteMark => return [⟨.never, [.mark]⟩]
  | .command body quoted => do
      let pieces := piecesOf quoted (← outputOf again body)
      return [⟨if quoted then .never else .separators, pieces⟩]
  | .arithmetic expression quoted => do
      let segments ← expandParts again ⟨false, false⟩ expression
      let value ← calculate (textOf (flatten segments))
      let pieces := piecesOf quoted (calculate.intText value)
      return [⟨if quoted then .never else .separators, pieces⟩]
  | .parameter name use word quoted => do
      let found ← parameter? purpose.full quoted name
      let arguments := (← shell).arguments
      let splitting : Splitting :=
        if ! quoted then .separators
        else if name = ['@'] ∧ arguments ≠ [] then .borders
        else .never
      let missing (orEmpty : Bool) : Bool :=
        match found with
        | none => true
        | some pieces => orEmpty && pieces.isEmpty
      let value : Act (List Segment) := do
        match found with
        | some pieces => return [⟨splitting, pieces⟩]
        | none =>
            if ← hasOption 'u' then failUnset name (notSet false) else return []
      match use with
      | .value => value
      | .invalid => fail "Bad substitution".toList
      | .length =>
          match found with
          | some pieces =>
              return [⟨splitting, piecesOf quoted (Text.decimal pieces.length)⟩]
          | none =>
              if ← hasOption 'u' then failUnset name (notSet false)
              else return [⟨splitting, piecesOf quoted ['0']⟩]
      | .default orEmpty =>
          if missing orEmpty then expandParts again ⟨purpose.full, true⟩ word else value
      | .alternative orEmpty =>
          if missing orEmpty then return []
          else expandParts again ⟨purpose.full, true⟩ word
      | .assignment orEmpty =>
          if missing orEmpty then
            let text := textOf (flatten (← expandParts again ⟨false, false⟩ word))
            setVariable name text false
            return [⟨splitting, piecesOf quoted text⟩]
          else value
      | .failure orEmpty =>
          if missing orEmpty then
            if word.isEmpty then failUnset name (notSet orEmpty)
            else failUnset name (textOf (flatten (← expandParts again ⟨false, false⟩ word)))
          else value
      | .trimStart longest =>
          match found with
          | none => value
          | some pieces =>
              let pattern ← expandParts again ⟨false, false⟩ word
              let glob := Glob.ofMarked (marked (flatten pattern))
              return [⟨splitting, piecesOf quoted (trimStart glob longest (textOf pieces))⟩]
      | .trimEnd longest =>
          match found with
          | none => value
          | some pieces =>
              let pattern ← expandParts again ⟨false, false⟩ word
              let glob := Glob.ofMarked (marked (flatten pattern))
              return [⟨splitting, piecesOf quoted (trimEnd glob longest (textOf pieces))⟩]

def expandParts (again : Evaluator) (purpose : Purpose) : List Part → Act (List Segment)
  | [] => return []
  | part :: rest => do
      let first ← expandPart again purpose part
      return Segment.append first (← expandParts again purpose rest)

end

/-! Fields. -/

/-- How far the splitting into fields has come: the fields that are complete, the pieces of the next
one, the last first, whether blanks are passed over after a field, how many more fields may be split
off, and where the blanks at the end of the last field start. -/
structure Splitter where
  fields : List (List Piece)
  current : List Piece
  afterBlank : Bool
  limit : Option Nat
  kept : Option (List Piece)

namespace Splitter

def isBlank (c : Char) : Bool :=
  c == ' ' || c == '\t' || c == '\n'

/-- Whether a piece separates fields, and whether it does so like a blank. -/
def separates (separators : Octets) : Piece → Bool × Bool
  | .border => (true, true)
  | .character c _ => (separators.contains c, separators.contains c && isBlank c)
  | .mark => (false, false)

def keep (splitter : Splitter) (piece : Piece) : Splitter :=
  { splitter with current := piece :: splitter.current }

/-- Takes a piece of the last field: blanks at its end are cut off. -/
def takeLast (splitter : Splitter) (piece : Piece) (separating blank : Bool) : Splitter :=
  let next := splitter.keep piece
  if blank then { next with kept := splitter.kept.or (some splitter.current) }
  else
    { next with
      kept := if separating && splitter.afterBlank then splitter.kept else none
      afterBlank := false }

/-- Takes a piece that separates fields. -/
def split (splitter : Splitter) (piece : Piece) (blank marksBlanks : Bool) : Splitter :=
  let afterBlank := marksBlanks && blank
  if splitter.current.isEmpty && afterBlank then
    { splitter with afterBlank := false }
  else if splitter.limit = some 1 then
    { splitter.keep piece with
      limit := some 0
      afterBlank
      kept := some splitter.current }
  else
    { splitter with
      fields := splitter.current.reverse :: splitter.fields
      current := []
      afterBlank
      limit := splitter.limit.map (· - 1) }

/-- Takes a piece. After a blank that has ended a field, more blanks and one other separator belong
to the same end. -/
def take (separators : Octets) (marksBlanks : Bool) (splitter : Splitter) (piece : Piece) :
    Splitter :=
  let (separating, blank) := separates separators piece
  if splitter.limit = some 0 then
    splitter.takeLast piece separating blank
  else if splitter.afterBlank then
    if blank then { splitter with current := [] }
    else if separating then { splitter with current := [], afterBlank := false }
    else { splitter with current := [piece], afterBlank := false }
  else if separating then
    splitter.split piece blank marksBlanks
  else
    splitter.keep piece

/-- Takes a segment; `afterBorders` tells that the one before it was split at borders only. -/
def takeSegment (separators : Octets) (splitter : Splitter) (afterBorders : Bool)
    (segment : Segment) : Splitter :=
  match segment.splitting with
  | .never => segment.pieces.foldl keep { splitter with afterBlank := false }
  | .borders => segment.pieces.foldl (take [] false) { splitter with afterBlank := false }
  | .written | .separators =>
      segment.pieces.foldl (take separators (! afterBorders)) { splitter with afterBlank := false }

def takeSegments (separators : Octets) : Splitter → Bool → List Segment → Splitter × Bool
  | splitter, afterBorders, [] => (splitter, afterBorders)
  | splitter, afterBorders, segment :: rest =>
      let next := splitter.takeSegment separators afterBorders segment
      let bordered :=
        match segment.splitting with
        | .never => afterBorders
        | .borders => true
        | _ => false
      takeSegments separators next bordered rest

end Splitter

/-- Splits segments into fields, at most so many if a limit is given. -/
def split (separators : Octets) (limit : Option Nat) (segments : List Segment) :
    List (List Piece) :=
  let (last, bordered) :=
    Splitter.takeSegments separators ⟨[], [], false, limit, none⟩ false segments
  let final := (last.kept.getD last.current).reverse
  if final.isEmpty && ! bordered then last.fields.reverse
  else (final :: last.fields).reverse

/-! File names. -/

/-- The names in a directory that a pattern fits. A dot in front must be in the pattern. -/
def matchingNames (files : FileSystem) (place : Place) (pattern : List Marked) : List Octets :=
  let glob := Glob.ofMarked pattern
  let dotted := (pattern.head?.map (·.1)) = some '.'
  let names := (files.namesIn place).map Octets.ofText
  let names := if dotted then ['.'] :: ['.', '.'] :: names else names
  names.filter fun name => (dotted || name.head? != some '.') && Glob.fits glob name

/-- Splits a pattern at its slashes. -/
def components : List Marked → List (List Marked)
  | [] => [[]]
  | (c, quoted) :: rest =>
      if c = '/' then [] :: components rest
      else
        match components rest with
        | [] => [[(c, quoted)]]
        | first :: others => ((c, quoted) :: first) :: others

/-- A name that a component without a pattern in it stands for. -/
def literalName : List Marked → Octets
  | [] => []
  | ('\\', false) :: (c, _) :: rest => c :: literalName rest
  | (c, _) :: rest => c :: literalName rest

/-- The paths that start as given and that the components of a pattern fit. -/
def matchingPaths (files : FileSystem) : Octets → List (List Marked) → List Octets
  | path, [] => [path]
  | path, [component] =>
      if Glob.isPattern component then (namesAfter path component).map (path ++ ·)
      else
        let whole := path ++ literalName component
        if (files.find (Octets.toText whole)).toOption.isSome then [whole] else []
  | path, component :: rest =>
      if Glob.isPattern component then
        (namesAfter path component).flatMap fun name =>
          let below := path ++ name ++ ['/']
          if (files.find (Octets.toText below)).toOption.isSome then matchingPaths files below rest
          else []
      else
        matchingPaths files (path ++ literalName component ++ ['/']) rest
where
  namesAfter (path : Octets) (component : List Marked) : List Octets :=
    let directory := if path.isEmpty then ['.'] else path
    match files.locate (Octets.toText directory) with
    | .ok place => matchingNames files place component
    | .error _ => []

/-- The names of files that a field stands for; the field itself if it is no pattern or fits no
file. -/
def fileNames (field : List Piece) : Act (List Octets) := do
  let pattern := marked field
  if ! Glob.isPattern pattern || (← hasOption 'f') then
    return [textOf field]
  else
    match matchingPaths (← files) [] (components pattern) with
    | [] => return [textOf field]
    | paths => return paths

/-! Words. -/

/-- The fields that a word becomes. -/
def fields (again : Evaluator) (word : Word) : Act (List Octets) := do
  let segments ← expandParts again ⟨true, false⟩ (← expandTilde false word)
  let found := split (← separators) none segments
  return (← found.mapM fileNames).flatten

def allFields (again : Evaluator) (words : List Word) : Act (List Octets) := do
  return (← words.mapM (fields again)).flatten

/-- The pieces of a word that stays one. -/
def pieces (again : Evaluator) (word : Word) : Act (List Piece) := do
  return flatten (← expandParts again ⟨false, false⟩ word)

/-- The text of a word that stays one, such as the path of a redirection. -/
def single (again : Evaluator) (word : Word) : Act Octets := do
  return textOf (← pieces again (← expandTilde false word))

/-- The text of the value of a variable. -/
def value (again : Evaluator) (word : Word) : Act Octets := do
  return textOf (← pieces again (← expandTildes word))

def pattern (again : Evaluator) (word : Word) : Act (List Glob) := do
  return Glob.ofMarked (marked (← pieces again (← expandTilde false word)))

/-- The text of a document. -/
def document (again : Evaluator) (number : Nat) : Act Octets := do
  match (← shell).documents.lookup number with
  | some word => return textOf (← pieces again word)
  | none => return []

end Expansion

end HclEdit.Shell
