import HclEdit.Text.Basic

/-!
The problems that a checker reports.
-/

namespace HclEdit

inductive Severity where
  | error
  | warning
deriving DecidableEq

namespace Severity

def name : Severity → Text
  | error => ['e', 'r', 'r', 'o', 'r']
  | warning => ['w', 'a', 'r', 'n', 'i', 'n', 'g']

/-- How the first line of a problem begins. -/
def label : Severity → Text
  | error => ['E', 'r', 'r', 'o', 'r', ':', ' ']
  | warning => ['W', 'a', 'r', 'n', 'i', 'n', 'g', ':', ' ']

end Severity

structure Problem where
  line : Nat
  severity : Severity
  summary : Text
  message : Text
deriving DecidableEq

end HclEdit
