import HclEdit.Diagnostic.Basic
import HclEdit.Json.Basic

/-!
Diagnostics as text with one line for each, and as JSON.
-/

namespace HclEdit.Diagnostic

/-- The line of a diagnostic, with the lines of its message joined by spaces. -/
def listing (path : Text) (diagnostic : Diagnostic) : Text :=
  path ++ ':' :: Text.decimal diagnostic.line ++ ':' :: ' ' :: diagnostic.severity.name ++
    ':' :: ' ' :: Text.join [' '] diagnostic.message.lines ++ ['\n']

def listingOfAll (path : Text) (diagnostics : List Diagnostic) : Text :=
  diagnostics.flatMap (listing path)

def toJson (diagnostic : Diagnostic) : Json :=
  .object [("line", .natural diagnostic.line),
    ("range", .object [("start", .natural diagnostic.span.start),
      ("end", .natural diagnostic.span.stop)]),
    ("severity", .text diagnostic.severity.name), ("summary", .text diagnostic.summary),
    ("message", .text diagnostic.message)]

end HclEdit.Diagnostic
