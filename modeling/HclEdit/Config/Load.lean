import HclEdit.Config.Environment
import HclEdit.Config.Flags
import HclEdit.Config.Json
import HclEdit.Files
import HclEdit.Toml.Reader

/-!
Loading the settings. They are laid over one another: the defaults, the settings file, the
environment, the flags. Of the places where a settings file may lie, the first with a file that can
be read counts.
-/

namespace HclEdit

inductive ConfigLoadError where
  | unexpectedArgument (argument : Text)
  | missingValue (flag : ConfigFlag)
  | repeatedFlag (flag : ConfigFlag)
  | invalidValue (flag : ConfigFlag) (value : Text)
  | missingFile (path : Text)
  | unreadableFile (path : Text) (error : FileError)
  | malformedFile (path : Text)
  | unsupportedFormat (path : Text)
  | invalidBase (path : Text)
  | wrongType
deriving DecidableEq

namespace ConfigLoadError

def message : ConfigLoadError → Text
  | unexpectedArgument argument => "unexpected argument '".toList ++ argument ++ "' found".toList
  | missingValue flag => "a value is required for '".toList ++ flag.name ++ ['\'']
  | repeatedFlag flag =>
      "the argument '".toList ++ flag.name ++ "' cannot be used multiple times".toList
  | invalidValue flag value =>
      "invalid value '".toList ++ value ++ "' for '".toList ++ flag.name ++ ['\'']
  | missingFile path => "configuration file '".toList ++ path ++ "' not found".toList
  | unreadableFile path error => path ++ ": ".toList ++ error.message
  | malformedFile path => path ++ ": malformed configuration file".toList
  | unsupportedFormat path => path ++ ": unsupported configuration format".toList
  | invalidBase path => path ++ ": invalid configuration file to extend".toList
  | wrongType => "a setting has a value of the wrong type".toList

end ConfigLoadError

/-- What settings are loaded from. -/
structure ConfigSources where
  arguments : List Text
  environment : Environment.Variables
  files : FileSystem

namespace ConfigFlag

/-- An argument can be a value of its own unless it looks like a flag. -/
def isValue (argument : Text) : Bool :=
  argument.head? != some '-' || argument == ['-']

/-- The flags in a list of arguments that holds nothing else, and their values. -/
def readAll : List Text → Except ConfigLoadError (List (ConfigFlag × Text))
  | [] => .ok []
  | [['-', '-']] => .ok []
  | argument :: rest =>
      match (read? argument).or (readShort? argument) with
      | none => .error (.unexpectedArgument argument)
      | some (flag, some value) => do
          let others ← readAll rest
          if others.any (·.1 = flag) then .error (.repeatedFlag flag)
          else .ok ((flag, value) :: others)
      | some (flag, none) =>
          match rest with
          | [] => .error (.missingValue flag)
          | value :: rest =>
              if isValue value then do
                let others ← readAll rest
                if others.any (·.1 = flag) then .error (.repeatedFlag flag)
                else .ok ((flag, value) :: others)
              else
                .error (.missingValue flag)

/-- A width as a flag gives it: decimal digits with a sign if need be. -/
def width? (text : Text) : Option Nat :=
  match text with
  | '-' :: digits => (Text.natural? digits).filter (· = 0)
  | '+' :: digits => (Text.natural? digits).filter (· < UInt16.size)
  | _ => (Text.natural? text).filter (· < UInt16.size)

/-- The setting that a flag gives, if it gives one. -/
def setting? (flag : ConfigFlag) (value : Text) :
    Except ConfigLoadError (Option (String × Json)) :=
  match flag with
  | configPath => .ok none
  | logFilter => .ok (some ("log_filter", .text value))
  | checkerCommand => .ok (some ("checker_command", .text value))
  | logFormat =>
      match LogFormat.parse? value with
      | some format => .ok (some ("log_format", .string format.name))
      | none => .error (.invalidValue flag value)
  | indentWidth =>
      match width? value with
      | some width => .ok (some ("indent_width", .natural width))
      | none => .error (.invalidValue flag value)

end ConfigFlag

namespace Config

/-- The settings of a file, by name. -/
abbrev Settings := List (String × Json)

/-- The letters after the last dot of a file name that does not start with it. -/
def extension (place : Place) : Text :=
  match ((place.getLast?.getD []).drop 1).reverse.span (· != '.') with
  | (letters, '.' :: _) => (letters.reverse.map Char.toLower)
  | _ => []

/-- Formats that are known by the names of their files but cannot be read. -/
def unsupportedExtensions : List Text :=
  ["json".toList, "json5".toList, "yaml".toList, "yml".toList]

/-- The path as seen from the directory of a file. -/
def pathBeside (place : Place) (path : Text) : Text :=
  if FileSystem.isAbsolute path then path
  else FileSystem.pathOf place.dropLast ++ '/' :: path

def readFile (files : FileSystem) (path : Text) (place : Place) :
    Except ConfigLoadError Settings := do
  if unsupportedExtensions.contains (extension place) then
    throw (.unsupportedFormat path)
  match files.readText path with
  | .error error => throw (.unreadableFile path error)
  | .ok text =>
      match Toml.read? text with
      | none => throw (.malformedFile path)
      | some members => pure members

/-- Reads a settings file and lays it over the file that it extends. Each file may be used once;
there are no more than `fuel` of them. -/
def readFiles (files : FileSystem) : Nat → List Place → Text → Except ConfigLoadError Settings
  | 0, _, path => .error (.invalidBase path)
  | fuel + 1, used, path => do
      match files.locate path with
      | .error error => throw (.unreadableFile path error)
      | .ok place =>
          if used.contains place then
            throw (.invalidBase path)
          let members ← readFile files path place
          match members.lookup "extends" with
          | none => pure members
          | some (.string base) =>
              let below := pathBeside place base.toList
              if base.isEmpty || ! files.isFile below then
                throw (.invalidBase path)
              pure (Json.overlayMembers (← readFiles files fuel (place :: used) below) members)
          | some _ => throw (.invalidBase path)

def fileSettings (files : FileSystem) (path : Text) : Except ConfigLoadError Settings :=
  readFiles files (files.entries.length + 1) [] path

/-- The files in a directory for settings. -/
def filesBelow (directory : Text) : List Text :=
  [directory ++ "/terrain/config.toml".toList, directory ++ "/.terrain.toml".toList]

/-- The directories for the settings of all users. -/
def sharedDirectories (environment : Environment.Variables) : List Text :=
  let given := (Environment.get? environment "XDG_CONFIG_DIRS".toList).elim []
    fun text => (text.pieces (· == ':')).filter (! ·.isEmpty)
  if given.isEmpty then ["/etc/xdg".toList] else given

/-- Where a settings file is looked for when no flag names one. -/
def candidates (environment : Environment.Variables) : List Text :=
  let value (name : String) : List Text := (Environment.get? environment name.toList).toList
  value "TERRAIN_CONFIG_PATH" ++
    (value "XDG_CONFIG_HOME" ++ sharedDirectories environment).flatMap filesBelow ++
    (value "HOME").flatMap (fun home =>
      filesBelow (home ++ "/.config".toList) ++ [home ++ "/.terrain.toml".toList]) ++
    [".terrain.toml".toList]

/-- The first settings that can be read. It is an error if there are files but none of them can. -/
def firstReadable (files : FileSystem) :
    List Text → Except ConfigLoadError (Option Settings)
  | [] => .ok none
  | path :: rest =>
      match fileSettings files path with
      | .ok settings => .ok (some settings)
      | .error error =>
          match firstReadable files rest with
          | .ok none => .error error
          | outcome => outcome

def discover (sources : ConfigSources) (path : Option Text) : Except ConfigLoadError Settings :=
  let files := sources.files
  match path with
  | some path =>
      if files.isFile path then fileSettings files path else .error (.missingFile path)
  | none => do
      let found ← firstReadable files ((candidates sources.environment).filter files.isFile)
      return found.getD []

/-- Loads the settings, given arguments that start with the name of the program. -/
def load (sources : ConfigSources) : Except ConfigLoadError Config := do
  let flags ← ConfigFlag.readAll (sources.arguments.drop 1)
  let flagged ← flags.mapM fun (flag, value) => flag.setting? value
  let file ← discover sources (flags.lookup .configPath)
  let layers : List Json :=
    [.object file, Environment.settings sources.environment, .object (flagged.filterMap id)]
  match ofJson? (layers.foldl Json.overlay standard.toJson) with
  | some config => .ok config
  | none => .error .wrongType

end Config

end HclEdit
