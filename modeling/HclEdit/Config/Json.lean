import HclEdit.Config.Basic
import HclEdit.Json.Fields

/-!
Settings as JSON: an object with a member for each setting, or the array of their values. A setting
that is not given takes its default.
-/

namespace HclEdit.Config

def toJson (config : Config) : Json :=
  .object [("log_filter", .text config.logFilter), ("log_format", .string config.logFormat.name),
    ("indent_width", .natural config.indentWidth.toNat),
    ("checker_command", .text config.checkerCommand)]

def textOfJson? (json : Json) : Option Text :=
  json.string?.map String.toList

def formatOfJson? (json : Json) : Option LogFormat :=
  json.constructor?.bind LogFormat.ofName?

def widthOfJson? (json : Json) : Option UInt16 :=
  (json.natural?.filter (· < UInt16.size)).map UInt16.ofNat

/-- The settings met among the members of an object so far. -/
structure Met where
  logFilter : Option Text
  logFormat : Option LogFormat
  indentWidth : Option UInt16
  checkerCommand : Option Text

/-- Reads a member as the setting with its name; members of other names are passed over. -/
def Met.member? (met : Met) (member : String × Json) : Option Met :=
  match member.1 with
  | "log_filter" => do
      some { met with logFilter := ← Json.meetField? textOfJson? met.logFilter member.2 }
  | "log_format" => do
      some { met with logFormat := ← Json.meetField? formatOfJson? met.logFormat member.2 }
  | "indent_width" => do
      some { met with indentWidth := ← Json.meetField? widthOfJson? met.indentWidth member.2 }
  | "checker_command" => do
      some
        { met with checkerCommand := ← Json.meetField? textOfJson? met.checkerCommand member.2 }
  | _ => some met

/-- Reads the members of an object one after the other, then takes the default for every setting
that has not been met. -/
def ofMembers? (members : List (String × Json)) : Option Config := do
  let met ← members.foldlM Met.member? ⟨none, none, none, none⟩
  some
    { logFilter := met.logFilter.getD standard.logFilter
      logFormat := met.logFormat.getD standard.logFormat
      indentWidth := met.indentWidth.getD standard.indentWidth
      checkerCommand := met.checkerCommand.getD standard.checkerCommand }

/-- Reads the items of an array as the settings in a fixed order. None may be left over. -/
def ofItems? (items : List Json) : Option Config := do
  let (logFilter, items) ← Json.nextField? textOfJson? standard.logFilter items
  let (logFormat, items) ← Json.nextField? formatOfJson? standard.logFormat items
  let (indentWidth, items) ← Json.nextField? widthOfJson? standard.indentWidth items
  let (checkerCommand, items) ← Json.nextField? textOfJson? standard.checkerCommand items
  if items.isEmpty then some { logFilter, logFormat, indentWidth, checkerCommand } else none

def ofJson? : Json → Option Config
  | .object members => ofMembers? members
  | .array items => ofItems? items
  | _ => none

end HclEdit.Config
