import HclEdit.Cli.Command
import HclEdit.Cli.Usage
import HclEdit.Config.Flags
import HclEdit.Text.Control

/-!
Reading the arguments of the command: a verb, the file it is about, and the flags of the verb in any
order around it.
-/

namespace HclEdit.Cli

inductive Invocation where
  | help (topic : Topic)
  | version
  | command (command : Command)
deriving DecidableEq

inductive UsageError where
  | missingCommand
  | unknownCommand (name : Text)
  | unexpectedArgument (topic : Topic) (argument : Text)
  | unexpectedValue (topic : Topic) (flag value : Text)
  | repeatedFlag (topic : Topic) (flag : Text)
  | missingFile (verb : Verb)
  | emptyFile
deriving DecidableEq

namespace UsageError

/-- The first line of a message. Control sequences in arguments are left out. -/
def headline : UsageError → Text
  | missingCommand => about
  | unknownCommand name =>
      "error: unrecognized subcommand '".toList ++ name.withoutControls ++ ['\'']
  | unexpectedArgument _ argument =>
      "error: unexpected argument '".toList ++ argument.withoutControls ++ "' found".toList
  | unexpectedValue _ flag value =>
      "error: unexpected value '".toList ++ value.withoutControls ++ "' for '".toList ++ flag ++
        "' found; no more were expected".toList
  | repeatedFlag _ flag =>
      "error: the argument '".toList ++ flag ++ "' cannot be used multiple times".toList
  | missingFile _ => "error: the following required arguments were not provided:".toList
  | emptyFile => "error: a value is required for '<FILE>' but none was supplied".toList

/-- What stands between the headline and the hint at the end. -/
def details : UsageError → List Text
  | missingCommand | emptyFile => []
  | unknownCommand _ => [usage, []]
  | unexpectedArgument topic _ | unexpectedValue topic _ _ | repeatedFlag topic _ =>
      [topic.usage, []]
  | missingFile verb => ["  <FILE>".toList, [], verb.usage, []]

def message (error : UsageError) : Text :=
  match error with
  | missingCommand => Topic.program.help
  | missingFile _ =>
      unlines (error.headline :: error.details ++ ["For more information, try '--help'.".toList])
  | _ =>
      unlines (error.headline :: [] :: error.details ++
        ["For more information, try '--help'.".toList])

end UsageError

/-- The file and the flags of a verb, as far as they have been read. -/
structure Gathered where
  file : Option Text
  json : Bool

namespace Gathered

/-- The file name may not be empty. -/
def checkFile (gathered : Gathered) : Except UsageError Unit :=
  if gathered.file = some [] then .error .emptyFile else .ok ()

def finish (verb : Verb) (gathered : Gathered) : Except UsageError Invocation := do
  gathered.checkFile
  match gathered.file with
  | none => .error (.missingFile verb)
  | some file =>
      return .command <|
        match verb with
        | .indent => .indent file
        | .outline => .outline file gathered.json
        | .check => .check file gathered.json

def takeFile (verb : Verb) (gathered : Gathered) (argument : Text) : Except UsageError Gathered :=
  match gathered.file with
  | none => .ok { gathered with file := some argument }
  | some _ => .error (.unexpectedArgument (.verb verb) argument)

def takeFiles (verb : Verb) : Gathered → List Text → Except UsageError Invocation
  | gathered, [] => gathered.finish verb
  | gathered, argument :: rest => do
      takeFiles verb (← gathered.takeFile verb argument) rest

end Gathered

def helpFlag : Text := "--help".toList

def jsonFlag : Text := "--json".toList

def versionFlag : Text := "--version".toList

inductive Shape where
  | escape
  | long (name : Text) (value : Option Text)
  | short (letter : Char)
  | plain

/-- What an argument looks like. Of a group of short flags the first letter counts. -/
def Shape.of (argument : Text) : Shape :=
  match argument with
  | ['-', '-'] => .escape
  | '-' :: '-' :: _ =>
      let (name, value) := ConfigFlag.splitAtEquals argument
      .long name value
  | '-' :: letter :: _ => .short letter
  | _ => .plain

def readVerb (verb : Verb) : Gathered → List Text → Except UsageError Invocation
  | gathered, [] => gathered.finish verb
  | gathered, argument :: rest =>
      let topic := Topic.verb verb
      match Shape.of argument with
      | .escape => gathered.takeFiles verb rest
      | .plain => do readVerb verb (← gathered.takeFile verb argument) rest
      | .short letter => do
          if letter ≠ 'h' then
            throw (.unexpectedArgument topic ['-', letter])
          gathered.checkFile
          return .help topic
      | .long name value => do
          if name ≠ helpFlag ∧ ¬ (name = jsonFlag ∧ verb.hasJson) then
            throw (.unexpectedArgument topic name)
          if let some value := value then
            throw (.unexpectedValue topic name value)
          gathered.checkFile
          if name = helpFlag then
            return .help topic
          if gathered.json then
            throw (.repeatedFlag topic name)
          readVerb verb { gathered with json := true } rest

/-- After an escape a verb is out of place, and anything else is not a verb. -/
def readEscaped : List Text → Except UsageError Invocation
  | [] => .error .missingCommand
  | argument :: _ =>
      if (Verb.ofName? argument).isSome then .error (.unexpectedArgument .program argument)
      else .error (.unknownCommand argument)

/-- Reads the arguments that follow the name of the program. -/
def readArguments : List Text → Except UsageError Invocation
  | [] => .error .missingCommand
  | argument :: rest =>
      match Verb.ofName? argument with
      | some verb => readVerb verb ⟨none, false⟩ rest
      | none =>
          match Shape.of argument with
          | .escape => readEscaped rest
          | .plain => .error (.unknownCommand argument)
          | .short letter =>
              if letter = 'h' then .ok (.help .program)
              else if letter = 'V' then .ok .version
              else .error (.unexpectedArgument .program ['-', letter])
          | .long name value =>
              if name ≠ helpFlag ∧ name ≠ versionFlag then
                .error (.unexpectedArgument .program name)
              else
                match value with
                | some value => .error (.unexpectedValue .program name value)
                | none => .ok (if name = helpFlag then .help .program else .version)

/-- Reads a command, given arguments that start with the name of the program. -/
def readCommand (arguments : List Text) : Except Refusal Command :=
  match readArguments (arguments.drop 1) with
  | .error error => .error ⟨true, error.message⟩
  | .ok (.help topic) => .error ⟨false, topic.help⟩
  | .ok .version => .error ⟨false, version⟩
  | .ok (.command command) => .ok command

end HclEdit.Cli
