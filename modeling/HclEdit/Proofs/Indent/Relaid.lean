import HclEdit.Proofs.Indent.Columns
import HclEdit.Proofs.Indent.Deciding
import HclEdit.Proofs.Lines.Order
import HclEdit.Proofs.Tree.Linked

/-!
# One tree over two texts

A tree laid over another text keeps its nodes and their lines. Of each line that is not blank the
same rule decides in both passes, and it reads the same line above.
-/

namespace HclEdit

namespace Tree

/-- The same nodes on the same lines of another text, with the same subject for every line that is
not blank. -/
structure Relaid (tree other : Tree) : Prop where
  size_eq : other.size = tree.size
  kind_eq : ∀ id, id < tree.size → other.kind id = tree.kind id
  parent?_eq : ∀ id, id < tree.size → other.parent? id = tree.parent? id
  startLine_eq : ∀ id, id < tree.size → other.startLine id = tree.startLine id
  subject_eq : ∀ number line otherLine, tree.lines.line? number = some line →
    other.lines.line? number = some otherLine → line.isBlank = false →
    (IndentSite.ofLine other [] number otherLine).node =
        (IndentSite.ofLine tree [] number line).node ∧
      (IndentSite.ofLine other [] number otherLine).parent =
        (IndentSite.ofLine tree [] number line).parent

theorem node_of_size_le {tree : Tree} {id : NodeId} (hid : tree.size ≤ id) :
    tree.node id = default :=
  @Layout.node_of_size_le ⟨tree.nodes, []⟩ id hid

section Relaid

variable {tree other : Tree} (hrelaid : tree.Relaid other)
include hrelaid

theorem Relaid.same_node_of_size_le {id : NodeId} (hid : tree.size ≤ id) :
    other.node id = tree.node id := by
  rw [node_of_size_le hid, node_of_size_le (by rw [hrelaid.size_eq]; exact hid)]

theorem Relaid.kind_eq_of_any (id : NodeId) : other.kind id = tree.kind id := by
  rcases Nat.lt_or_ge id tree.size with hid | hid
  · exact hrelaid.kind_eq id hid
  · exact congrArg Node.kind (hrelaid.same_node_of_size_le hid)

theorem Relaid.parent?_eq_of_any (id : NodeId) : other.parent? id = tree.parent? id := by
  rcases Nat.lt_or_ge id tree.size with hid | hid
  · exact hrelaid.parent?_eq id hid
  · exact congrArg Node.parent (hrelaid.same_node_of_size_le hid)

theorem Relaid.startLine_eq_of_any (id : NodeId) : other.startLine id = tree.startLine id := by
  rcases Nat.lt_or_ge id tree.size with hid | hid
  · exact hrelaid.startLine_eq id hid
  · have hstart (tree : Tree) (hid : tree.size ≤ id) : tree.startLine id = 0 := by
      rw [startLine, span, node_of_size_le hid, tree.lines_eq]
      exact LineTable.rowOf_zero tree.source
    rw [hstart tree hid, hstart other (by rw [hrelaid.size_eq]; exact hid)]

theorem Relaid.children_eq (htree : tree.Linked) (hother : other.Linked) (id : NodeId) :
    other.children id = tree.children id := by
  rw [htree.children_eq, hother.children_eq, hrelaid.size_eq]
  refine List.filter_congr fun child _ => ?_
  rw [hrelaid.parent?_eq_of_any child]

end Relaid

theorem relaid_of_lt_count {tree other : Tree} (hsize : other.size = tree.size)
    (hkind : ∀ id, id < tree.size → other.kind id = tree.kind id)
    (hparent : ∀ id, id < tree.size → other.parent? id = tree.parent? id)
    (hstart : ∀ id, id < tree.size → other.startLine id = tree.startLine id)
    (hsubject : ∀ number, number < tree.lines.count → ∀ line ∈ tree.lines.line? number,
      ∀ otherLine ∈ other.lines.line? number, line.isBlank = false →
      (IndentSite.ofLine other [] number otherLine).node =
          (IndentSite.ofLine tree [] number line).node ∧
        (IndentSite.ofLine other [] number otherLine).parent =
          (IndentSite.ofLine tree [] number line).parent) :
    tree.Relaid other where
  size_eq := hsize
  kind_eq := hkind
  parent?_eq := hparent
  startLine_eq := hstart
  subject_eq := fun number line otherLine hline =>
    hsubject number (List.getElem?_eq_some_iff.1 hline).1 line hline otherLine

end Tree

namespace IndentRules

variable (rules : IndentRules) {tree other : Tree} (htree : tree.Linked) (hother : other.Linked)
  (hrelaid : tree.Relaid other) {number : Nat} {line otherLine : Line}
  (hline : tree.lines.line? number = some line)
  (hotherLine : other.lines.line? number = some otherLine) (hblank : line.isBlank = false)
include htree hother hrelaid hline hotherLine hblank

/-- Both passes ask the rules about the same subject. -/
theorem siteOf_agrees :
    (rules.siteOf tree number line).Agrees (rules.siteOf other number otherLine) where
  node_eq := (hrelaid.subject_eq number line otherLine hline hotherLine hblank).1
  parent_eq := (hrelaid.subject_eq number line otherLine hline hotherLine hblank).2
  line_eq := rfl
  kind_eq := hrelaid.kind_eq_of_any
  parent?_eq := hrelaid.parent?_eq_of_any
  children_eq := hrelaid.children_eq htree hother

end IndentRules

end HclEdit
