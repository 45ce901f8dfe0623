import HclEdit.Config.Basic
import HclEdit.SourceError

/-!
What a run of the program can fail with.
-/

namespace HclEdit.Cli

inductive Error where
  | usage (complaint : Text)
  | settings (reason : Text)
  | invalidSettings (error : ConfigError)
  | logging (reason : Text)
  | unreadable (path reason : Text)
  | unparsable (path : Text) (error : SourceError)
  | checker (error : StartError)
  | abandoned (path : Text)
  | jsonOutput (reason : Text)
  | plainOutput (reason : Text)
deriving DecidableEq

def Error.message : Error → Text
  | usage complaint => complaint
  | settings reason => "failed to load configuration: ".toList ++ reason
  | invalidSettings error => "invalid configuration: ".toList ++ error.message
  | logging reason => reason
  | unreadable path reason => "failed to read ".toList ++ path ++ ": ".toList ++ reason
  | unparsable path error =>
      "failed to parse ".toList ++ path ++ ": ".toList ++ error.message.toList
  | checker error => error.message
  | abandoned path =>
      "the check of ".toList ++ path ++ " was cancelled before it finished".toList
  | jsonOutput reason => "failed to serialise output: ".toList ++ reason
  | plainOutput reason => "failed to write output: ".toList ++ reason

end HclEdit.Cli
