import HclEdit.Indent.Rule
import HclEdit.Text.Blank
import HclEdit.Tree.Search

/-!
What the rules are asked about: a line, the node that begins it and the node around it, together
with the columns already assigned to the lines above.
-/

namespace HclEdit

/-- The number of spaces and tabs that a text starts with; a tab counts as one column. -/
def Text.indentation (text : Text) : Nat :=
  (text.takeWhile fun c => c == ' ' || c == '\t').length

def Text.unindented (text : Text) : Text :=
  text.dropWhile fun c => c == ' ' || c == '\t'

/-- The offset of the first character of a line that is not blank, or of the line's end. -/
def Line.firstOffset (line : Line) : Nat :=
  line.start + (Text.byteLength line.content - Text.byteLength (Text.trimStart line.content))

structure IndentSite where
  tree : Tree
  node : Option NodeId
  parent : Option NodeId
  line : Nat
  assigned : List Nat

namespace IndentSite

def grandParent (site : IndentSite) : Option NodeId :=
  site.parent.bind site.tree.parent?

/-- The indentation of a line: as assigned for a line above, otherwise as in the source. -/
def lineColumn (site : IndentSite) (line : Nat) : Nat :=
  let written := (site.tree.lines.content line).indentation
  if line < site.line then site.assigned[line]?.getD written else written

/-- The indentation of the line on which a node starts. -/
def nodeColumn (site : IndentSite) (id : NodeId) : Nat :=
  site.lineColumn (site.tree.startLine id)

def ofNode (tree : Tree) (id : NodeId) : IndentSite :=
  { tree, node := some id, parent := tree.parent? id, line := tree.startLine id, assigned := [] }

/-- The outermost node that starts with the first character of a line. Blank lines and lines inside
a larger node have none; then the innermost node around that place counts as the parent. -/
def ofLine (tree : Tree) (assigned : List Nat) (number : Nat) (line : Line) : IndentSite :=
  let first := line.firstOffset
  let node := if first = line.stop then none else tree.outermostStartingAt? first
  let parent :=
    match node with
    | some id => tree.parent? id
    | none =>
        let enclosing := tree.innermostAt first
        if enclosing ≠ Tree.root ∨ (tree.span enclosing).start ≠ first then some enclosing else none
  { tree, node, parent, line := number, assigned }

end IndentSite

end HclEdit
