import HclEdit.Indent.Comment
import HclEdit.Indent.Table

/-!
The column that a rule table gives a node or a line. The first rule that matches and whose anchor
has a column decides.
-/

namespace HclEdit

namespace Matcher

mutual

def holds (site : IndentSite) : Matcher → Bool
  | .nodeIs kind => site.node.any (site.tree.kind · == kind)
  | .parentIs kind => site.parent.any (site.tree.kind · == kind)
  | .grandParentIs kind => site.grandParent.any (site.tree.kind · == kind)
  | .firstOfKind kind =>
      match site.node, site.parent with
      | some node, some parent =>
          site.tree.kind node == kind && site.tree.firstChild? parent kind == some node
      | _, _ => false
  | .noParent => site.parent.isNone
  | .all inner => holdsAll site inner
  | .any inner => holdsAny site inner
  | .always => true

def holdsAll (site : IndentSite) : List Matcher → Bool
  | [] => true
  | matcher :: rest => matcher.holds site && holdsAll site rest

def holdsAny (site : IndentSite) : List Matcher → Bool
  | [] => false
  | matcher :: rest => matcher.holds site || holdsAny site rest

end

end Matcher

def Anchor.column? (site : IndentSite) : Anchor → Option Nat
  | .margin => some 0
  | .parentLine => site.parent.map site.nodeColumn
  | .grandParentLine => site.grandParent.map site.nodeColumn
  | .commentAbove => site.commentColumn?
  | .current => some (site.lineColumn site.line)

/-- Columns are counted in 64 bits, and moving one stops at either end. -/
def shiftColumn (column : Nat) (offset : Int32) : Nat :=
  min (column + offset.toInt).toNat (UInt64.size - 1)

def IndentRule.column? (rule : IndentRule) (site : IndentSite) : Option Nat :=
  if rule.matcher.holds site then
    (rule.anchor.column? site).map (shiftColumn · rule.offset)
  else
    none

namespace IndentRules

/-- Where no rule decides, a line keeps the column of the node around it. -/
def column (rules : IndentRules) (site : IndentSite) : Nat :=
  match rules.findSome? (·.column? site) with
  | some column => column
  | none => site.parent.elim 0 site.nodeColumn

def columnOfNode (rules : IndentRules) (tree : Tree) (id : NodeId) : Nat :=
  rules.column (.ofNode tree id)

/-- The column of a line, with all other lines as they are; zero past the last line. -/
def columnOfLine (rules : IndentRules) (tree : Tree) (number : Nat) : Nat :=
  (tree.lines.line? number).elim 0 fun line => rules.column (.ofLine tree [] number line)

end IndentRules

end HclEdit
