import HclEdit.CommandLine

/-!
The settings: what is logged and how, the indentation step, and the checker.
-/

namespace HclEdit

inductive LogFormat where
  | json
  | compact
deriving DecidableEq

namespace LogFormat

def name : LogFormat → String
  | json => "json"
  | compact => "compact"

def ofName? : String → Option LogFormat
  | "json" => some json
  | "compact" => some compact
  | _ => none

/-- Reads a format without regard to the case of ASCII letters. -/
def parse? (text : Text) : Option LogFormat :=
  ofName? (String.ofList (text.map Char.toLower))

end LogFormat

structure Config where
  logFilter : Text
  logFormat : LogFormat
  indentWidth : UInt16
  checkerCommand : Text
deriving DecidableEq

inductive ConfigError where
  | widthOutOfRange (width : UInt16)
  | blankChecker
deriving DecidableEq

namespace Config

def maxIndentWidth : UInt16 := 16

def standard : Config :=
  { logFilter := ['i', 'n', 'f', 'o']
    logFormat := .compact
    indentWidth := 2
    checkerCommand := "terraform fmt -no-color -".toList }

def validate (config : Config) : Except ConfigError Unit :=
  if config.indentWidth < 1 ∨ maxIndentWidth < config.indentWidth then
    .error (.widthOutOfRange config.indentWidth)
  else if Text.trim config.checkerCommand = [] then
    .error .blankChecker
  else
    .ok ()

end Config

def ConfigError.message : ConfigError → Text
  | widthOutOfRange width =>
      "indent width ".toList ++ Text.decimal width.toNat ++ " is outside 1..=".toList ++
        Text.decimal Config.maxIndentWidth.toNat
  | blankChecker => "checker command is empty".toList

end HclEdit
