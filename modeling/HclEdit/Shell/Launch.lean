import HclEdit.Files
import HclEdit.Shell.Octets

/-!
What running an executable file comes down to: a program of the system, or the interpreter that a
script names in its first line, which may be a script itself.
-/

namespace HclEdit.Shell

inductive LaunchError where
  | file (error : FileError)
  | unknownFormat
  | tooManyInterpreters
deriving DecidableEq

/-- A program with the name it is called by and its arguments. -/
structure Invocation where
  program : String
  name : Octets
  arguments : List Octets

namespace Launch

def isSpace (c : Char) : Bool :=
  c == ' ' || c == '\t'

/-- The interpreter of a script, and the argument that its first line passes on if any. -/
def interpreter? (content : Octets) : Option (Octets × List Octets) :=
  match content with
  | '#' :: '!' :: rest =>
      let line := rest.takeWhile (· != '\n')
      let (path, after) := (line.dropWhile isSpace).span (! isSpace ·)
      let argument := ((after.dropWhile isSpace).reverse.dropWhile isSpace).reverse
      if path.isEmpty then none
      else some (path, if argument.isEmpty then [] else [argument])
  | _ => none

/-- How many files may stand in for one another before that is given up. -/
def maxInterpreters : Nat := 5

def resolveWithin (files : FileSystem) (name path : Octets) (arguments : List Octets) :
    Nat → Except LaunchError Invocation
  | 0 => .error .tooManyInterpreters
  | depth + 1 =>
      match files.find (Octets.toText path) with
      | .error error => .error (.file error)
      | .ok .directory => .error (.file .accessDenied)
      | .ok (.program program) => .ok ⟨program, name, arguments⟩
      | .ok (.file content executable) =>
          if ! executable then
            .error (.file .accessDenied)
          else
            match interpreter? (Octets.ofBytes content) with
            | none => .error .unknownFormat
            | some (interpreter, argument) =>
                resolveWithin files interpreter interpreter (argument ++ path :: arguments) depth

/-- What running the file at a path comes down to; `name` is what it is called by. -/
def resolve (files : FileSystem) (name path : Octets) (arguments : List Octets) :
    Except LaunchError Invocation :=
  resolveWithin files name path arguments maxInterpreters

end Launch

end HclEdit.Shell
