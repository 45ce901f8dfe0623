import HclEdit.Shell.Builtin.Basic
import HclEdit.Shell.Expansion

/-!
The commands that change variables, parameters and options of the shell.
-/

namespace HclEdit.Shell.Builtin

open Act

def insertByName (entry : Octets × Variable) : List (Octets × Variable) → List (Octets × Variable)
  | [] => [entry]
  | other :: rest =>
      if entry.1 < other.1 then entry :: other :: rest else other :: insertByName entry rest

/-- A list of variables as commands that set them. -/
def listing (command : Octets) (shown : Variable → Bool) : Act Octets := do
  let entries := ((← shell).bindings.filter fun entry => shown entry.2).foldr insertByName []
  return entries.flatMap fun (name, entry) =>
    (if command.isEmpty then [] else command ++ [' ']) ++ name ++
      entry.value.elim [] (fun value => '=' :: quote value) ++ ['\n']

def markVariable (name : Octets) (change : Variable → Variable) : Act Unit := do
  if ! isName name then
    fail (name ++ ": bad variable name".toList)
  let entry := (← entryOf? name).getD ⟨none, false, false⟩
  putVariable name (some (change entry))

/-- Marks variables, and sets those that come with a value. Without any, or with an option in front,
the ones that are marked are listed. -/
def markAll (command : String) (change : Variable → Variable) (marked : Variable → Bool)
    (arguments : List Octets) : Act Nat := do
  let names ←
    match arguments with
    | ['-', '-'] :: names => pure names
    | ('-' :: letter :: _) :: _ => do
        discard (readOptions "p" "" [['-', letter]])
        pure []
    | names => pure names
  if names.isEmpty then
    put (← listing command.toList marked)
  else
    for argument in names do
      let (name, value) := splitAssignment argument
      match value with
      | some value => setVariable name value false
      | none => pure ()
      markVariable name change
    return 0

def «export» : List Octets → Act Nat :=
  markAll "export" (fun entry => { entry with exported := true }) (·.exported)

def readOnly : List Octets → Act Nat :=
  markAll "readonly" (fun entry => { entry with readOnly := true }) (·.readOnly)

def unsetVariable (name : Octets) : Act Unit := do
  let name := name.takeWhile (· ≠ '=')
  if ! isName name then
    fail (name ++ ": bad variable name".toList)
  if (← entryOf? name).any (·.readOnly) then
    fail (name ++ ": is read only".toList)
  putVariable name none

def unset (arguments : List Octets) : Act Nat := do
  let (options, names) ← readOptions "vf" "" arguments
  for name in names do
    if options.getLast?.map (·.1) = some 'f' then
      modifyShell fun shell =>
        { shell with functions := shell.functions.filter (·.1 ≠ name) }
    else
      unsetVariable name
  return 0

/-- Keeps the state of a variable for when the function that is running is left. -/
def saveLocally (name : Octets) : Act Unit := do
  let entry ← entryOf? name
  modifyShell fun shell =>
    match shell.locals with
    | [] => shell
    | frame :: rest => { shell with locals := ((name, entry) :: frame) :: rest }

def declareLocal (arguments : List Octets) : Act Nat := do
  if (← shell).locals.isEmpty then
    fail "not in a function".toList
  for argument in arguments do
    let (name, value) := splitAssignment argument
    saveLocally name
    match value with
    | some value => setVariable name value false
    | none => pure ()
  return 0

def setArguments (arguments : List Octets) : Act Unit :=
  modifyShell fun shell => { shell with arguments }

def shift (arguments : List Octets) : Act Nat := do
  let count ← arguments.head?.elim (pure 1) natural
  let current := (← shell).arguments
  if current.length < count then
    fail "can't shift that many".toList
  setArguments (current.drop count)
  return 0

/-! Options of the shell. -/

/-- The names of the options, with their letters if they have one. -/
def optionNames : List (String × Option Char) :=
  [("errexit", some 'e'), ("noglob", some 'f'), ("ignoreeof", some 'I'), ("interactive", some 'i'),
   ("monitor", some 'm'), ("noexec", some 'n'), ("stdin", some 's'), ("xtrace", some 'x'),
   ("verbose", some 'v'), ("vi", some 'V'), ("emacs", some 'E'), ("noclobber", some 'C'),
   ("allexport", some 'a'), ("notify", some 'b'), ("nounset", some 'u'), ("privileged", some 'p'),
   ("nolog", none), ("debug", none)]

def setOption (letter : Char) (on : Bool) : Act Unit :=
  modifyShell fun shell =>
    let others := shell.options.filter (· ≠ letter)
    { shell with options := if on then letter :: others else others }

/-- Sets an option by its letter; when a shell starts, `c` tells that its script is an argument. -/
def setLetter (atStart on : Bool) (letter : Char) : Act Unit := do
  if optionNames.any (·.2 = some letter) then setOption letter on
  else if atStart && letter = 'c' then setOption letter true
  else if atStart && letter = 'l' then return
  else fail ("Illegal option -".toList ++ [letter])

/-- Sets an option by its name. -/
def setNamed (name : Octets) (on : Bool) : Act Unit := do
  match optionNames.find? (·.1.toList = name) with
  | some (_, some letter) => setOption letter on
  | some (_, none) => return
  | none => fail ("Illegal option -o ".toList ++ name)

/-- The state of all options, to be read or to be run again. Before a shell has started none of them
is off yet. -/
def optionListing (atStart toRead : Bool) : Act Octets := do
  let options := (← shell).options
  let lines := optionNames.map fun (name, letter) =>
    let on := atStart || letter.any options.contains
    if toRead then
      name.toList ++ List.replicate (16 - name.length) ' ' ++
        (if on then "on\n" else "off\n").toList
    else
      (if on then "set -o " else "set +o ").toList ++ name.toList ++ ['\n']
  return (if toRead then "Current option settings\n".toList else []) ++ lines.flatten

/-- Goes through the letters of an argument; `o` takes the next argument. -/
def setLetters (atStart on : Bool) : Octets → List Octets → Act (List Octets)
  | [], rest => return rest
  | 'o' :: letters, rest => do
      match rest with
      | [] =>
          discard (put (← optionListing atStart on))
          setLetters atStart on letters []
      | name :: rest =>
          setNamed name on
          setLetters atStart on letters rest
  | letter :: letters, rest => do
      setLetter atStart on letter
      setLetters atStart on letters rest

/-- Sets options; what comes back are the arguments after them, and whether they are to replace the
parameters even if there are none. -/
def setOptions (atStart : Bool) : Nat → List Octets → Act (List Octets × Bool)
  | 0, arguments => return (arguments, false)
  | _, [] => return ([], false)
  | fuel + 1, word :: rest => do
      match word with
      | ['-'] =>
          if ! atStart then
            setOption 'x' false
            setOption 'v' false
          return (rest, false)
      | ['-', '-'] => return (rest, true)
      | '-' :: letters => do
          let rest ← setLetters atStart true letters rest
          setOptions atStart fuel rest
      | '+' :: letters => do
          let rest ← setLetters atStart false letters rest
          setOptions atStart fuel rest
      | _ => return (word :: rest, false)

def set (arguments : List Octets) : Act Nat := do
  if arguments.isEmpty then
    put (← listing [] (·.value.isSome))
  else
    let (parameters, always) ← setOptions false (arguments.length + 1) arguments
    if always || ! parameters.isEmpty then
      setArguments parameters
    return 0

/-! Reading lines. -/

/-- Puts a character in front of segments; characters that are not quoted are split. -/
def putFirst (c : Char) (quoted : Bool) (segments : List Segment) : List Segment :=
  match quoted, segments with
  | true, _ => ⟨.never, [.character c true]⟩ :: segments
  | false, ⟨.separators, pieces⟩ :: rest => ⟨.separators, .character c false :: pieces⟩ :: rest
  | false, _ => ⟨.separators, [.character c false]⟩ :: segments

/-- Reads a line for its fields: its segments, its length with the line end, and whether it has
one. Unless the line is raw, a backslash quotes the next character and joins lines. -/
def scanLine (raw : Bool) : Bool → Octets → List Segment × Nat × Bool
  | _, [] => ([], 0, false)
  | quoted, c :: rest =>
      let after (next : Bool) : List Segment × Nat × Bool :=
        let (segments, length, ended) := scanLine raw next rest
        (segments, length + 1, ended)
      let keeping (quoted : Bool) : List Segment × Nat × Bool :=
        let (segments, length) := after false
        (putFirst c quoted segments, length)
      if c = '\x00' then after quoted
      else if quoted then
        if c = '\n' then
          let (segments, length) := after false
          (⟨.separators, []⟩ :: segments, length)
        else keeping true
      else if c = '\n' then ([], 1, true)
      else if c = '\\' ∧ ! raw then after true
      else keeping false

/-- Sets variables to the fields of a line, and those that are left over to nothing. -/
def setFields : List Octets → List Octets → Act Unit
  | [], _ => return
  | name :: names, fields => do
      setVariable name (fields.head?.getD []) false
      setFields names fields.tail

def read (arguments : List Octets) : Act Nat := do
  let (options, names) ← readOptions "r" "p" arguments
  if names.isEmpty then
    fail "arg count".toList
  let raw := options.any (·.1 = 'r')
  let text ← readWith 0 fun text => (scanLine raw false text).2.1
  let (segments, _, ended) := scanLine raw false (text.toOption.getD [])
  let fields := Expansion.split (← separators) (some names.length) segments
  setFields names (fields.map Expansion.textOf)
  return if ended then 0 else 1

/-! Options of scripts. -/

/-- What `getopts` has found: the letter, its value, and the arguments and letters left. -/
structure FoundOption where
  letter : Char
  value : Option Octets
  message : Octets
  index : Nat
  offset : Nat

/-- The place of a letter among those that are allowed, and whether it takes a value. -/
def allowed? (letter : Char) : Octets → Option Bool
  | [] => none
  | c :: ':' :: rest => if c = letter then some true else allowed? letter rest
  | c :: rest => if c = letter then some false else allowed? letter rest

/-- Finds the next option in arguments, of which those before an index are done; the letters of one
argument are taken one by one. Without one, the index of the first other argument comes back. -/
def nextOption (letters : Octets) (arguments : List Octets) (index offset : Nat) :
    Except Nat FoundOption :=
  let current : Octets :=
    if index ≤ 1 ∨ offset = 0 then [] else ((arguments[index - 2]?).getD []).drop offset
  let start : Except Nat (Octets × Nat × Nat) :=
    match current with
    | _ :: _ => .ok (current, index, offset)
    | [] =>
        match arguments[index - 1]? with
        | some ['-', '-'] => .error (index + 1)
        | some ('-' :: c :: rest) => .ok (c :: rest, index + 1, 1)
        | _ => .error index
  match start with
  | .error index => .error index
  | .ok ([], index, _) => .error index
  | .ok (c :: rest, index, offset) =>
      let quiet := letters.head? = some ':'
      let next := if rest.isEmpty then 0 else offset + 1
      let found (letter : Char) (value : Option Octets) (message : Octets) (index offset : Nat) :
          Except Nat FoundOption :=
        .ok ⟨letter, value, message, index, offset⟩
      match allowed? c letters with
      | none =>
          if quiet then found '?' (some [c]) [] index next
          else found '?' none ("Illegal option -".toList ++ [c, '\n']) index next
      | some false => found c (some []) [] index next
      | some true =>
          if ! rest.isEmpty then found c (some rest) [] index 0
          else
            match arguments[index - 1]? with
            | some value => found c (some value) [] (index + 1) 0
            | none =>
                if quiet then found ':' (some [c]) [] index 0
                else found '?' none ("No arg for -".toList ++ c :: " option\n".toList) index 0

def getopts (arguments : List Octets) : Act Nat := do
  match ← withoutOptions arguments with
  | letters :: name :: given =>
      let shell ← shell
      let words := if given.isEmpty then shell.arguments else given
      let index := max 1 (((← valueOf? "OPTIND".toList).bind Text.natural?).getD 1)
      let (index, offset) :=
        if words.length + 1 < index then (1, 0) else (index, shell.optionOffset)
      match nextOption letters words index offset with
      | .error index =>
          setVariable "OPTIND".toList (Text.decimal index) false
          setVariable name ['?'] false
          return 1
      | .ok found =>
          match found.value with
          | some value => setVariable "OPTARG".toList value false
          | none => putVariable "OPTARG".toList none
          discard (write 2 found.message)
          setVariable "OPTIND".toList (Text.decimal found.index) false
          setVariable name [found.letter] false
          modifyShell fun shell => { shell with optionOffset := found.offset }
          return 0
  | _ => fail "Usage: getopts optstring var [arg...]".toList

end HclEdit.Shell.Builtin
