import HclEdit.CommandLine
import HclEdit.Files

/-!
Where programs are found among the files: a path is taken as it is, and a bare name is looked up in
the directories of a search path.
-/

namespace HclEdit

namespace FileSystem

/-- The names of a path, without those that stand for the directory they are in; such a name is
kept only in front. -/
def pathNames (path : Text) : List Text :=
  match names path with
  | [] => []
  | first :: rest =>
      let kept := rest.filter fun name => name ≠ [] ∧ name ≠ ['.']
      if first = [] then kept else first :: kept

/-- A name in a directory of the search path. An empty directory is the working directory. -/
def pathIn (directory name : Text) : Text :=
  if directory = [] then name else directory ++ '/' :: name

/-- The path that a program name stands for. -/
def programPath? (files : FileSystem) (searchPath : List Text) (program : Text) : Option Text :=
  let names := pathNames program
  if isAbsolute program && ! names.isEmpty then
    some program
  else if 1 < names.length then
    let below := if names.head? = some ['.'] then names.drop 1 else names
    some (pathOf (files.workingDirectory ++ below))
  else
    (searchPath.map (pathIn · program)).find? files.isExecutable

def findProgram? (files : FileSystem) (searchPath : List Text) (program : Text) : Option Text :=
  (files.programPath? searchPath program).filter files.isExecutable

end FileSystem

/-- The command with its program located among the files. -/
def CommandLine.resolve (files : FileSystem) (searchPath : List Text) (command : CommandLine) :
    Except StartError Executable :=
  command.locate (files.findProgram? searchPath)

end HclEdit
