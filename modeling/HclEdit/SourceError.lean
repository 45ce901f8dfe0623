/-!
What can go wrong between a source text and its tree.
-/

namespace HclEdit

inductive SourceError where
  | parserUnavailable (reason : String)
  | unparsable (reason : String)
  | editOutside (start stop length : Nat)
  | malformedTree (reason : String)
deriving DecidableEq

def SourceError.message : SourceError → String
  | parserUnavailable reason => s!"failed to initialise HCL parser: {reason}"
  | unparsable reason => s!"failed to parse HCL: {reason}"
  | editOutside start stop length =>
      s!"edit range {start}..{stop} is outside the source ({length} bytes)"
  | malformedTree reason => s!"invalid syntax tree: {reason}"

end HclEdit
