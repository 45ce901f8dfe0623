import HclEdit.Lines

/-!
Parse trees as a parser hands them out: every node in the order of its first visit, each with its
depth below the root.
-/

namespace HclEdit

structure ParseNode where
  depth : Nat
  kind : String
  span : Span
  named : Bool
  isError : Bool
  isMissing : Bool
  hasError : Bool
deriving DecidableEq

abbrev ParseTree := List ParseNode

namespace ParseTree

/-- Whether the parse is damaged anywhere, which its root knows. -/
def hasErrors (parse : ParseTree) : Bool :=
  parse.head?.any (·.hasError)

/-- The damaged nodes. Nodes below `floor` are passed over, and nothing is looked for below a node
that reports no damage in its subtree. -/
def damagedBelow (floor : Option Nat) : ParseTree → List ParseNode
  | [] => []
  | node :: rest =>
      if floor.any (· < node.depth) then
        damagedBelow floor rest
      else
        let later := damagedBelow (if node.hasError then none else some node.depth) rest
        if node.isError || node.isMissing then node :: later else later

def damaged (parse : ParseTree) : List ParseNode :=
  damagedBelow none parse

end ParseTree

end HclEdit
