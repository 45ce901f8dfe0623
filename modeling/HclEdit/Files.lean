import HclEdit.Text.Utf8

/-!
Files as a program sees them: directories, files with their bytes, and the programs that the system
brings along. Paths are followed one name at a time from the root or the working directory.
-/

namespace HclEdit

inductive FileError where
  | notFound
  | accessDenied
  | notDirectory
  | isDirectory
  | nameTooLong
  | embeddedNul
  | notUtf8
deriving DecidableEq

/-- What the system says about an error. -/
def FileError.reason : FileError → Text
  | notFound => "No such file or directory".toList
  | accessDenied => "Permission denied".toList
  | notDirectory => "Not a directory".toList
  | isDirectory => "Is a directory".toList
  | nameTooLong => "File name too long".toList
  | embeddedNul => "file name contained an unexpected NUL byte".toList
  | notUtf8 => "stream did not contain valid UTF-8".toList

/-- The number that the system has for an error. -/
def FileError.number? : FileError → Option Nat
  | notFound => some 2
  | accessDenied => some 13
  | notDirectory => some 20
  | isDirectory => some 21
  | nameTooLong => some 36
  | embeddedNul => none
  | notUtf8 => none

def FileError.message (error : FileError) : Text :=
  match error.number? with
  | some number => error.reason ++ " (os error ".toList ++ Text.decimal number ++ [')']
  | none => error.reason

inductive FileEntry where
  | directory
  | file (content : Bytes) (executable : Bool)
  | program (name : String)
deriving DecidableEq

/-- A place in the file system: the names on the way to it from the root. -/
abbrev Place := List Text

structure FileSystem where
  workingDirectory : Place
  entries : List (Place × FileEntry)

namespace FileSystem

def names (path : Text) : List Text :=
  path.pieces (· == '/')

def isAbsolute (path : Text) : Bool :=
  path.head? == some '/'

def pathOf (place : Place) : Text :=
  place.flatMap ('/' :: ·)

/-- What is at a place. The places above an entry, and above the working directory, hold
directories. -/
def entryAt? (files : FileSystem) (place : Place) : Option FileEntry :=
  match files.entries.lookup place with
  | some entry => some entry
  | none =>
      if place.isPrefixOf files.workingDirectory || files.entries.any (place.isPrefixOf ·.1) then
        some .directory
      else
        none

def origin (files : FileSystem) (path : Text) : Place :=
  if isAbsolute path then [] else files.workingDirectory

/-- The place that a path without parent directories in it stands for. -/
def placeOf (files : FileSystem) (path : Text) : Place :=
  files.origin path ++ (names path).filter fun name => name ≠ [] ∧ name ≠ ['.']

def follow (files : FileSystem) : Place → List Text → Except FileError Place
  | place, [] => .ok place
  | place, name :: rest =>
      match files.entryAt? place with
      | none => .error .notFound
      | some .directory =>
          if name = [] ∨ name = ['.'] then files.follow place rest
          else if name = ['.', '.'] then files.follow place.dropLast rest
          else if 255 < Text.byteLength name then .error .nameTooLong
          else files.follow (place ++ [name]) rest
      | some _ => .error .notDirectory

/-- The length in bytes from which on a path is refused. -/
def maxPath : Nat := 4096

/-- The place that a path leads to; whether something is there is left open. -/
def locate (files : FileSystem) (path : Text) : Except FileError Place := do
  if path.contains '\x00' then
    throw .embeddedNul
  if path.isEmpty then
    throw .notFound
  if maxPath ≤ Text.byteLength path then
    throw .nameTooLong
  files.follow (files.origin path) (names path)

def find (files : FileSystem) (path : Text) : Except FileError FileEntry := do
  match files.entryAt? (← files.locate path) with
  | some entry => pure entry
  | none => throw .notFound

def read (files : FileSystem) (path : Text) : Except FileError Bytes := do
  match ← files.find path with
  | .directory => throw .isDirectory
  | .file content _ => pure content
  | .program _ => pure []

def readText (files : FileSystem) (path : Text) : Except FileError Text := do
  match Text.decode? (← files.read path) with
  | some text => pure text
  | none => throw .notUtf8

def isFile (files : FileSystem) (path : Text) : Bool :=
  match files.find path with
  | .ok (.file _ _) | .ok (.program _) => true
  | _ => false

def isExecutable (files : FileSystem) (path : Text) : Bool :=
  match files.find path with
  | .ok (.file _ executable) => executable
  | .ok (.program _) => true
  | _ => false

def remove (files : FileSystem) (place : Place) : FileSystem :=
  { files with entries := files.entries.filter (·.1 ≠ place) }

/-- Puts something at a place, instead of what is there. -/
def put (files : FileSystem) (place : Place) (entry : FileEntry) : FileSystem :=
  if (files.entries.lookup place).isSome then
    { files with
      entries := files.entries.map fun old => if old.1 = place then (place, entry) else old }
  else
    { files with entries := files.entries ++ [(place, entry)] }

def insertSorted (name : Text) : List Text → List Text
  | [] => [name]
  | other :: rest =>
      if name = other then other :: rest
      else if name < other then name :: other :: rest
      else other :: insertSorted name rest

/-- The names of what is in a directory, in order. -/
def namesIn (files : FileSystem) (place : Place) : List Text :=
  files.entries.foldl (fun names (found, _) =>
    match (if place.isPrefixOf found then found.drop place.length else []) with
    | [] => names
    | name :: _ => insertSorted name names) []

end FileSystem

end HclEdit
