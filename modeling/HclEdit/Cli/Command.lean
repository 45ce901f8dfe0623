import HclEdit.Text.Basic

/-!
What the arguments of a run ask for.
-/

namespace HclEdit.Cli

/-- What to do with which file. -/
inductive Command where
  | indent (file : Text)
  | outline (file : Text) (json : Bool)
  | check (file : Text) (json : Bool)
deriving DecidableEq

/-- What is printed instead of carrying out a command: an answer to arguments that only ask about
the program, or what is wrong with the arguments. -/
structure Refusal where
  isError : Bool
  text : Text
deriving DecidableEq

end HclEdit.Cli
