import HclEdit.Shell.Format
import HclEdit.Shell.Machine

/-!
Programs of the system that copy and count text. Each is run with the name it is called by and its
arguments, and gives its status.
-/

namespace HclEdit.Shell.Programs

open Act

/-! Names of files in messages. -/

def isPrinted (c : Char) : Bool :=
  ' ' ≤ c && c ≤ '~'

/-- An escape for a byte that cannot be printed. -/
def escaped (c : Char) : Octets :=
  let named := [('\x07', 'a'), ('\x08', 'b'), ('\x0C', 'f'), ('\n', 'n'), ('\r', 'r'), ('\t', 't'),
    ('\x0B', 'v')]
  match named.lookup c with
  | some letter => ['\\', letter]
  | none =>
      let digits := Nat.toDigits 8 c.toNat
      '\\' :: List.replicate (3 - digits.length) '0' ++ digits

/-- The inside of a quoted name; `inEscapes` tells that bytes that cannot be printed have gone
before. -/
def quoteFrom (inEscapes : Bool) : Octets → Octets
  | [] => []
  | c :: rest =>
      if isPrinted c then
        (if inEscapes then ['\'', '\''] else []) ++
          (if c = '\'' then ['\'', '\\', '\'', '\''] else [c]) ++ quoteFrom false rest
      else
        (if inEscapes then [] else ['\'', '$', '\'']) ++ escaped c ++ quoteFrom true rest

/-- The characters that mean something to a shell. -/
def isSpecial (c : Char) : Bool :=
  "!\"$&()*;<=>?[\\^|".toList.contains c || c.toNat = 0x60

/-- A name in quotes. -/
def quoted (name : Octets) : Octets :=
  let isPlain (c : Char) : Bool := isPrinted c && ! isSpecial c
  if name.contains '\'' && name.all isPlain then '"' :: name ++ ['"']
  else '\'' :: quoteFrom false name ++ ['\'']

/-- A name, in quotes if it could be taken for something else. -/
def shown (name : Octets) : Octets :=
  let needsQuotes (c : Char) : Bool :=
    ! isPrinted c || isSpecial c || [' ', '\'', ':'].contains c
  let opens := ['#', '~'].contains (name.head?.getD 'x') || ["\x7b", "\x7d"].any (·.toList = name)
  if name.isEmpty || opens || name.any needsQuotes then quoted name else name

/-- Writes a message of a program. -/
def complain (name message : Octets) : Act Unit :=
  discard (write 2 (name ++ ": ".toList ++ message ++ ['\n']))

/-- Opens the file of an argument as another descriptor; a dash stands for the input. -/
def openArgument (argument : Octets) : Act (Except Octets Nat) := do
  if argument = ['-'] then
    return (← opened? 0).elim (.error "Bad file descriptor".toList) .ok
  else
    return (← openPath argument .read).mapError FileError.reason

/-- What is left to read of an open file. -/
def readOpened (number : Nat) : Act (Except Octets Octets) := do
  match (← world).opened[number]? with
  | none => return .error "Bad file descriptor".toList
  | some file =>
      if file.access = .write ∨ file.access = .append then
        return .error "Bad file descriptor".toList
      else if file.target = .directory then
        return .error "Is a directory".toList
      else
        let text ← remaining file
        advance number text.length
        return .ok text

/-- Whether reading an open file to its end would never come to an end, as what is read is written
to it again. -/
def feedsItself (number : Nat) : Act Bool := do
  let opened := (← world).opened
  match opened[number]?, (← opened? 1).bind (opened[·]?) with
  | some input, some output =>
      match input.target, output.target with
      | .file place, .file other =>
          return place = other ∧ ! (← remaining input).isEmpty
      | _, _ => return false
  | _, _ => return false

/-- The text of an argument that is to be copied to the output, or why it is not. -/
def textToCopy (argument : Octets) : Act (Except Octets Octets) := do
  match ← openArgument argument with
  | .error reason => return .error reason
  | .ok number =>
      if ← feedsItself number then return .error "input file is output file".toList
      else readOpened number

/-- Copies the files of arguments one after the other. -/
def copyAll (name : Octets) (copy : Octets → Act Unit) : List Octets → Act Nat
  | [] => return 0
  | argument :: rest => do
      match ← textToCopy argument with
      | .ok text =>
          copy text
          copyAll name copy rest
      | .error reason =>
          complain name (shown argument ++ ": ".toList ++ reason)
          return max 1 (← copyAll name copy rest)

/-- The complaint about options that a program does not have. -/
def refuse (name message : Octets) : Act Nat := do
  complain name message
  discard (write 2 ("Try '".toList ++ name ++ " --help' for more information.\n".toList))
  return 1

/-- The options among arguments, by their letters, and the other arguments. A long option, which
none of the programs has, comes back as it is. -/
def splitOptions : List Octets → Except Octets (List Char × List Octets)
  | [] => .ok ([], [])
  | argument :: rest => do
      match argument with
      | ['-', '-'] => return ([], rest)
      | '-' :: '-' :: _ => throw argument
      | '-' :: c :: letters =>
          let (others, left) ← splitOptions rest
          return (c :: letters ++ others, left)
      | _ =>
          let (letters, left) ← splitOptions rest
          return (letters, argument :: left)

/-- Runs a program on its options and the other arguments, if it has all those options. -/
def withOptions (name : Octets) (allowed : String) (arguments : List Octets)
    (run : List Char → List Octets → Act Nat) : Act Nat := do
  match splitOptions arguments with
  | .error option => refuse name ("unrecognized option '".toList ++ option ++ ['\''])
  | .ok (letters, left) =>
      match letters.find? (! allowed.toList.contains ·) with
      | some letter => refuse name ("invalid option -- '".toList ++ [letter, '\''])
      | none => run letters left

/-- A byte as it is shown where those that cannot be printed are spelled out. -/
def visible (c : Char) : Octets :=
  let high : Octets := if 128 ≤ c.toNat then ['M', '-'] else []
  let low := Char.ofNat (c.toNat % 128)
  high ++
    if low.toNat < 32 then ['^', Char.ofNat (low.toNat + 64)]
    else if low.toNat = 127 then ['^', '?']
    else [low]

/-- The options of `cat` that change what is copied. -/
structure Copying where
  numbers : Bool
  numbersText : Bool
  squeezes : Bool
  marksEnds : Bool
  showsTabs : Bool
  showsOthers : Bool

def Copying.ofLetters (letters : List Char) : Copying :=
  let has (choices : String) : Bool := letters.any choices.toList.contains
  { numbers := has "n"
    numbersText := has "b"
    squeezes := has "s"
    marksEnds := has "AEe"
    showsTabs := has "ATt"
    showsOthers := has "Aetv" }

def Copying.character (copying : Copying) (c : Char) : Octets :=
  if c = '\t' then (if copying.showsTabs then ['^', 'I'] else [c])
  else if copying.showsOthers then visible c
  else [c]

/-- The number in front of a line. -/
def Copying.numbered (copying : Copying) (count : Nat) (line : Octets) : Octets :=
  if copying.numbersText && line.isEmpty then []
  else if copying.numbers || copying.numbersText then
    let digits := Text.decimal (count + 1)
    List.replicate (6 - digits.length) ' ' ++ digits ++ ['\t']
  else []

/-- Lines as they are copied; those before them have so many numbers. -/
def Copying.lines (copying : Copying) (count : Nat) (afterBlank : Bool) : List Octets → Octets
  | [] => []
  | [last] =>
      if last.isEmpty then [] else copying.numbered count last ++ last.flatMap copying.character
  | line :: rest =>
      if line.isEmpty ∧ afterBlank ∧ copying.squeezes then
        copying.lines count true rest
      else
        let isNumbered := ! line.isEmpty || (copying.numbers && ! copying.numbersText)
        copying.numbered count line ++ line.flatMap copying.character ++
          (if copying.marksEnds then ['$', '\n'] else ['\n']) ++
          copying.lines (if isNumbered then count + 1 else count) line.isEmpty rest

def cat (name : Octets) (arguments : List Octets) : Act Nat :=
  withOptions name "AbeEnstTuv" arguments fun letters paths => do
    if (← opened? 1).isNone then
      complain name "standard output: Bad file descriptor".toList
      return 1
    let paths := if paths.isEmpty then [['-']] else paths
    let copying := Copying.ofLetters letters
    let status ←
      if letters.all (· = 'u') then
        copyAll name (fun text => discard (write 1 text)) paths
      else
        let pipe := (← world).pipes.size
        modifyWorld fun world => { world with pipes := world.pipes.push [] }
        let gather (text : Octets) : Act Unit :=
          modifyWorld fun world => { world with pipes := world.pipes.modify pipe (· ++ text) }
        let status ← copyAll name gather paths
        let text := ((← world).pipes[pipe]?).getD []
        discard (write 1 (copying.lines 0 false (Text.pieces (· == '\n') text)))
        pure status
    if paths.contains ['-'] && (← opened? 0).isNone then
      complain name "closing standard input: Bad file descriptor".toList
    return status

/-- Takes files away. -/
def removeAll (name : Octets) (quietly : Bool) : List Octets → Act Nat
  | [] => return 0
  | path :: rest => do
      let files ← files
      let problem : Option Octets :=
        match files.find (Octets.toText path) with
        | .ok .directory => some "Is a directory".toList
        | .ok _ => none
        | .error error => if quietly then none else some error.reason
      match problem, files.locate (Octets.toText path) with
      | none, .ok place => changeFiles (·.remove place)
      | none, .error _ => pure ()
      | some reason, _ =>
          complain name ("cannot remove ".toList ++ quoted path ++ ": ".toList ++ reason)
      return max (if problem.isSome then 1 else 0) (← removeAll name quietly rest)

def rm (name : Octets) (arguments : List Octets) : Act Nat :=
  withOptions name "f" arguments fun letters paths => removeAll name (! letters.isEmpty) paths

/-- Makes files that are not there yet. -/
def touchAll (name : Octets) : List Octets → Act Nat
  | [] => return 0
  | path :: rest => do
      let status ←
        match ← openPath path .append with
        | .ok _ | .error .isDirectory => pure 0
        | .error error =>
            complain name ("cannot touch ".toList ++ quoted path ++ ": ".toList ++ error.reason)
            pure 1
      return max status (← touchAll name rest)

/-- Undoes the escapes of a text for `echo`; the second part tells whether all output is to stop. -/
def unescape : Nat → Octets → Octets × Bool
  | 0, _ => ([], false)
  | _, [] => ([], false)
  | fuel + 1, '\\' :: rest =>
      let andThen (c : Char) (left : Octets) : Octets × Bool :=
        let (read, stops) := unescape fuel left
        (c :: read, stops)
      match rest with
      | 'c' :: _ => ([], true)
      | '0' :: digits =>
          let octal := (digits.take 3).takeWhile isOctal
          andThen (octalByte octal) (digits.drop octal.length)
      | 'x' :: digits =>
          let hex := (digits.take 2).takeWhile fun c => (Text.hexValue? c).isSome
          if hex.isEmpty then andThen '\\' rest
          else andThen (Char.ofNat ((Text.hexNumber? hex).getD 0)) (digits.drop hex.length)
      | c :: left =>
          if isDigit c then andThen '\\' rest
          else
            let (read, _) := readEscape [c]
            if read = '\\' ∧ c ≠ '\\' then andThen '\\' rest else andThen read left
      | [] => ([ '\\'], false)
  | fuel + 1, c :: rest =>
      let (read, stops) := unescape fuel rest
      (c :: read, stops)

/-- Writes arguments; escapes are undone only if that is asked for. -/
def echo (arguments : List Octets) : Act Nat := do
  let isOption : Octets → Bool
    | '-' :: c :: letters => (c :: letters).all ['n', 'e', 'E'].contains
    | _ => false
  let letters := (arguments.takeWhile isOption).flatMap (·.drop 1)
  let text := joinWords (arguments.dropWhile isOption)
  let escapes := (letters.filter (· ≠ 'n')).getLast? = some 'e'
  let (read, stops) := if escapes then unescape (text.length + 1) text else (text, false)
  discard (write 1 (if stops || letters.contains 'n' then read else read ++ ['\n']))
  return 0

/-- The programs that need nothing but their arguments. -/
def find? (program : String) : Option (Octets → List Octets → Act Nat) :=
  match program with
  | "cat" => some cat
  | "echo" => some fun _ arguments => echo arguments
  | "false" => some fun _ _ => return 1
  | "rm" => some rm
  | "touch" => some touchAll
  | "true" | "sleep" => some fun _ _ => return 0
  | _ => none

end HclEdit.Shell.Programs
