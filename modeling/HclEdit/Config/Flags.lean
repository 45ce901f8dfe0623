import HclEdit.Text.Basic

/-!
The flags for settings. They stand at the front of the arguments, each with its value after an
equals sign or as the next argument. Only flags by their full names are told from the command that
follows them.
-/

namespace HclEdit

inductive ConfigFlag where
  | configPath
  | logFilter
  | logFormat
  | indentWidth
  | checkerCommand
deriving DecidableEq

namespace ConfigFlag

def all : List ConfigFlag :=
  [configPath, logFilter, logFormat, indentWidth, checkerCommand]

def name : ConfigFlag → Text
  | configPath => "--config-path".toList
  | logFilter => "--log-filter".toList
  | logFormat => "--log-format".toList
  | indentWidth => "--indent-width".toList
  | checkerCommand => "--checker-command".toList

/-- The flag as a single letter, where it has one. -/
def letter? : ConfigFlag → Option Char
  | configPath => none
  | logFilter => some 'l'
  | logFormat => some 'L'
  | indentWidth => some 'i'
  | checkerCommand => some 'c'

/-- The part of an argument before its first equals sign, and what follows the sign. -/
def splitAtEquals : Text → Text × Option Text
  | [] => ([], none)
  | '=' :: rest => ([], some rest)
  | c :: rest =>
      let (front, value) := splitAtEquals rest
      (c :: front, value)

/-- The flag that an argument gives, and its value if that is attached to it. -/
def read? (argument : Text) : Option (ConfigFlag × Option Text) :=
  let (front, value) := splitAtEquals argument
  (all.find? (·.name == front)).map (·, value)

/-- The flag that an argument gives by its letter. A value attached to it may follow an equals
sign. -/
def readShort? (argument : Text) : Option (ConfigFlag × Option Text) :=
  match argument with
  | '-' :: letter :: rest =>
      let value :=
        match rest with
        | [] => none
        | '=' :: value => some value
        | _ => some rest
      (all.find? (·.letter? == some letter)).map (·, value)
  | _ => none

/-- Splits the flags for settings off the front. A flag without a value attached takes the next
argument, whatever it is; `expectsValue` tells that one is due. -/
def splitFront (expectsValue : Bool) : List Text → List Text × List Text
  | [] => ([], [])
  | argument :: rest =>
      if expectsValue then
        let (flags, command) := splitFront false rest
        (argument :: flags, command)
      else
        match read? argument with
        | none => ([], argument :: rest)
        | some (_, value) =>
            let (flags, command) := splitFront value.isNone rest
            (argument :: flags, command)

end ConfigFlag

structure ArgumentSplit where
  settings : List Text
  boundary : Nat
deriving DecidableEq

/-- The program name with the flags for settings after it, and where the command starts. -/
def ArgumentSplit.of : List Text → ArgumentSplit
  | [] => ⟨[], 0⟩
  | program :: rest =>
      let flags := (ConfigFlag.splitFront false rest).1
      ⟨program :: flags, flags.length + 1⟩

/-- The program name with the command after it. -/
def ArgumentSplit.command (split : ArgumentSplit) (arguments : List Text) : List Text :=
  arguments.take 1 ++ arguments.drop split.boundary

end HclEdit
