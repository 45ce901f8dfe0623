/-!
Indentation rules as data: what a rule matches, the column it starts from and the columns it adds.
-/

namespace HclEdit

/-- What a rule asks of the node that begins a line, of its parent and of its grandparent. -/
inductive Matcher where
  | nodeIs (kind : String)
  | parentIs (kind : String)
  | grandParentIs (kind : String)
  | firstOfKind (kind : String)
  | noParent
  | all (inner : List Matcher)
  | any (inner : List Matcher)
  | always
deriving BEq

namespace Matcher

def nodeIsAny (kinds : List String) : Matcher :=
  .any (kinds.map .nodeIs)

def parentIsAny (kinds : List String) : Matcher :=
  .any (kinds.map .parentIs)

end Matcher

/-- The column that a rule counts from. -/
inductive Anchor where
  | margin
  | parentLine
  | grandParentLine
  | commentAbove
  | current
deriving DecidableEq

structure IndentRule where
  matcher : Matcher
  anchor : Anchor
  offset : Int32
deriving BEq

abbrev IndentRules := List IndentRule

end HclEdit
