import HclEdit.Files
import HclEdit.Shell.Arithmetic

/-!
The state of a running script. The world is what all its parts share: files, open files, pipes, the
two outputs, and the signals that have been sent to shells. A shell has variables, functions,
descriptors and options of its own, of which a subshell gets a copy.
-/

namespace HclEdit.Shell

/-- What an open file leads to. -/
inductive Target where
  | nothing
  | input
  | output
  | errors
  | pipe (number : Nat)
  | file (place : Place)
  | directory
deriving DecidableEq

structure OpenFile where
  target : Target
  access : Access
  offset : Nat

structure World where
  files : FileSystem
  opened : Array OpenFile
  pipes : Array Octets
  input : Octets
  output : List Octets
  errors : List Octets
  shells : Nat
  signals : List (Nat × Nat)

structure Variable where
  value : Option Octets
  exported : Bool
  readOnly : Bool

/-- A function with the line that its body starts on. -/
structure Function where
  line : Nat
  body : Command

/-- A command in the background, which has come to its end, and the signal that has been sent to
it. -/
structure Job where
  number : Nat
  status : Nat
  signal : Option Nat

/-- Commands that are passed over: up to the end of loops or of a function. -/
inductive Skip where
  | none
  | leaving (loops : Nat)
  | continuing (loops : Nat)
  | returning
deriving DecidableEq

structure ShellState where
  name : Octets
  number : Nat
  arguments : List Octets
  bindings : List (Octets × Variable)
  locals : List (List (Octets × Option Variable))
  functions : List (Octets × Function)
  tracked : List Octets
  documents : List (Nat × Word)
  nextDocument : Nat
  descriptors : List (Nat × Nat)
  directory : Place
  status : Nat
  substituted : Nat
  line : Nat
  linesRead : Nat
  speaker : Option Octets
  options : List Char
  traps : List (Nat × Octets)
  outerTraps : List (Nat × Octets)
  skip : Skip
  loops : Nat
  isInner : Bool
  leaving : Option Nat
  background : Option Nat
  jobs : List Job
  optionOffset : Nat

structure Machine where
  world : World
  shell : ShellState

/-- Why a script does not go on: a mistake, its end, a signal, or too many steps. -/
inductive Abort where
  | failure
  | finish
  | killed (signal : Nat)
  | exhausted
deriving DecidableEq

abbrev Act := ExceptT Abort (StateM Machine)

namespace Act

def shell : Act ShellState :=
  return (← get).shell

def world : Act World :=
  return (← get).world

def modifyShell (change : ShellState → ShellState) : Act Unit :=
  modify fun machine => { machine with shell := change machine.shell }

def modifyWorld (change : World → World) : Act Unit :=
  modify fun machine => { machine with world := change machine.world }

def setStatus (status : Nat) : Act Unit :=
  modifyShell fun shell => { shell with status }

def hasOption (letter : Char) : Act Bool :=
  return (← shell).options.contains letter

/-! Files. -/

/-- The file system as seen from the working directory of the shell. -/
def files : Act FileSystem := do
  let machine ← get
  return { machine.world.files with workingDirectory := machine.shell.directory }

def changeFiles (change : FileSystem → FileSystem) : Act Unit :=
  modifyWorld fun world => { world with files := change world.files }

def newFile (target : Target) (access : Access) : Act Nat := do
  let number := (← world).opened.size
  modifyWorld fun world => { world with opened := world.opened.push ⟨target, access, 0⟩ }
  return number

def opened? (descriptor : Nat) : Act (Option Nat) :=
  return (← shell).descriptors.lookup descriptor

def setDescriptor (descriptor : Nat) (number : Option Nat) : Act Unit :=
  modifyShell fun shell =>
    let others := shell.descriptors.filter (·.1 ≠ descriptor)
    { shell with descriptors := number.elim others fun number => (descriptor, number) :: others }

/-- The descriptor that a special file stands for. -/
def specialDescriptor? (place : Place) : Option Nat :=
  match place.map String.ofList with
  | ["dev", "stdin"] => some 0
  | ["dev", "stdout"] => some 1
  | ["dev", "stderr"] => some 2
  | ["dev", "fd", number] | ["proc", "self", "fd", number] => Text.natural? number.toList
  | _ => none

def isNull (place : Place) : Bool :=
  place == ["dev".toList, "null".toList]

/-- Opens what a descriptor leads to once more. -/
def reopen (descriptor : Nat) (access : Access) : Act (Except FileError Nat) := do
  match ← opened? descriptor with
  | none => return .error .notFound
  | some number =>
      match (← world).opened[number]? with
      | some file => return .ok (← newFile file.target access)
      | none => return .error .notFound

/-- Opens a file; one that is written to is made if need be, and emptied unless text is to be
appended or kept. -/
def openPath (path : Octets) (access : Access) : Act (Except FileError Nat) := do
  let files ← files
  match files.locate (Octets.toText path) with
  | .error error =>
      let isNew := error = .notFound && access ≠ .read && path.getLast? = some '/'
      let file := (path.reverse.dropWhile (· = '/')).reverse
      if isNew && (files.locate (Octets.toText file)).toOption.isSome then
        return .error .isDirectory
      else
        return .error error
  | .ok place =>
      if isNull place then
        return .ok (← newFile .nothing access)
      else
        match specialDescriptor? place with
        | some descriptor => reopen descriptor access
        | none =>
            match files.entryAt? place, access with
            | none, .read => return .error .notFound
            | none, _ =>
                changeFiles (·.put place (.file [] false))
                return .ok (← newFile (.file place) access)
            | some .directory, .read => return .ok (← newFile .directory access)
            | some .directory, _ => return .error .isDirectory
            | some (.file _ executable), .write =>
                changeFiles (·.put place (.file [] executable))
                return .ok (← newFile (.file place) access)
            | some _, _ => return .ok (← newFile (.file place) access)

/-- The bytes of a file, if there is one. -/
def contentAt (place : Place) : Act Octets := do
  match (← files).entryAt? place with
  | some (.file content _) => return Octets.ofBytes content
  | _ => return []

def setContent (place : Place) (content : Octets) : Act Unit :=
  changeFiles fun files =>
    let executable :=
      match files.entryAt? place with
      | some (.file _ executable) => executable
      | _ => false
    files.put place (.file (Octets.toBytes content) executable)

def moveTo (number offset : Nat) : Act Unit :=
  modifyWorld fun world =>
    { world with opened := world.opened.modify number fun file => { file with offset } }

/-- Puts a text over the part of a content that starts at an offset. -/
def overwrite (content : Octets) (offset : Nat) (text : Octets) : Octets :=
  content.take offset ++ List.replicate (offset - content.length) '\x00' ++ text ++
    content.drop (offset + text.length)

/-- Writes to an open file; tells why that cannot be done. -/
def writeFile (number : Nat) (text : Octets) : Act (Option String) := do
  match (← world).opened[number]? with
  | none => return some "Bad file descriptor"
  | some file =>
      if file.access = .read then
        return some "Bad file descriptor"
      else
        match file.target with
        | .nothing => return none
        | .input | .directory => return some "Bad file descriptor"
        | .output =>
            modifyWorld fun world => { world with output := text :: world.output }
            return none
        | .errors =>
            modifyWorld fun world => { world with errors := text :: world.errors }
            return none
        | .pipe pipe =>
            modifyWorld fun world => { world with pipes := world.pipes.modify pipe (· ++ text) }
            return none
        | .file place =>
            let content ← contentAt place
            let offset := if file.access = .append then content.length else file.offset
            setContent place (overwrite content offset text)
            moveTo number (offset + text.length)
            return none

/-- Writes to a descriptor. -/
def write (descriptor : Nat) (text : Octets) : Act (Option String) := do
  if text.isEmpty then
    return none
  else
    match ← opened? descriptor with
    | none => return some "Bad file descriptor"
    | some number => writeFile number text

/-- What is left to read of an open file. -/
def remaining (file : OpenFile) : Act Octets := do
  match file.target with
  | .input => return (← world).input
  | .pipe pipe => return ((← world).pipes[pipe]?).getD []
  | .file place => return (← contentAt place).drop file.offset
  | _ => return []

/-- Passes over what has been read of an open file. -/
def advance (number count : Nat) : Act Unit := do
  match (← world).opened[number]? with
  | none => return
  | some file =>
      match file.target with
      | .input => modifyWorld fun world => { world with input := world.input.drop count }
      | .pipe pipe =>
          modifyWorld fun world => { world with pipes := world.pipes.modify pipe (·.drop count) }
      | .file _ => moveTo number (file.offset + count)
      | _ => return

/-- Reads from a descriptor as much as `count` tells of what is left; tells why that cannot be
done. -/
def readWith (descriptor : Nat) (count : Octets → Nat) : Act (Except String Octets) := do
  match ← opened? descriptor with
  | none => return .error "Bad file descriptor"
  | some number =>
      match (← world).opened[number]? with
      | none => return .error "Bad file descriptor"
      | some file =>
          if file.access = .write ∨ file.access = .append then
            return .error "Bad file descriptor"
          else if file.target = .directory then
            return .error "Is a directory"
          else
            let text ← remaining file
            let length := count text
            advance number length
            return .ok (text.take length)

def readAll (descriptor : Nat) : Act (Except String Octets) :=
  readWith descriptor List.length

/-! Messages. -/

/-- Writes a message about the script. -/
def warn (message : Octets) : Act Unit := do
  let shell ← shell
  let speaker := shell.speaker.elim [] (· ++ ": ".toList)
  discard (write 2 (shell.name ++ ": ".toList ++ Text.decimal shell.line ++ ": ".toList ++
    speaker ++ message ++ ['\n']))

/-- Gives up because of a mistake. -/
def fail {α : Type} (message : Octets) : Act α := do
  warn message
  setStatus 2
  throw .failure

/-! Variables. -/

def entryOf? (name : Octets) : Act (Option Variable) :=
  return (← shell).bindings.lookup name

def valueOf? (name : Octets) : Act (Option Octets) :=
  return (← entryOf? name).bind (·.value)

def putVariable (name : Octets) (found : Option Variable) : Act Unit :=
  modifyShell fun shell =>
    let others := shell.bindings.filter (·.1 ≠ name)
    { shell with bindings := found.elim others fun entry => (name, entry) :: others }

/-- Sets a variable, and with `exports` marks it for the programs that are run. The name ends at an
equals sign. -/
def setVariable (name value : Octets) (exports : Bool) : Act Unit := do
  let name := name.takeWhile (· ≠ '=')
  if ! isName name then
    fail (name ++ ": bad variable name".toList)
  let old ← entryOf? name
  if old.any (·.readOnly) then
    fail (name ++ ": is read only".toList)
  if name = "OPTIND".toList then
    modifyShell fun shell => { shell with optionOffset := 0 }
  let exported := exports || old.any (·.exported) || (← hasOption 'a')
  putVariable name (some ⟨some value, exported, false⟩)

/-- The variables that the programs that are run get to see. -/
def exported : Act (List (Octets × Octets)) := do
  return (← shell).bindings.filterMap fun (name, entry) =>
    if entry.exported then entry.value.map (name, ·) else none

def separators : Act Octets := do
  return ((← valueOf? "IFS".toList)).getD [' ', '\t', '\n']

/-! Parts that run on their own. -/

/-- Runs an action and takes what ended it. -/
def outcome {α : Type} (action : Act α) : Act (Except Abort α) := fun machine =>
  let (result, machine) := action.run.run machine
  (.ok result, machine)

/-- Runs an action with shell states of its own, and goes back to the state before it. -/
def apart {α : Type} (action : Act α) : Act (Except Abort α) := do
  let before ← shell
  let result ← outcome action
  modifyShell fun _ => before
  return result

end Act

end HclEdit.Shell
