import HclEdit.Proofs.Tree.Descendants
import HclEdit.Proofs.Tree.Replay
import Mathlib.Logic.Relation

/-!
# The innermost node

The search for an offset goes from child to child and never back. Ids grow on the way, so it ends
in every tree. In a nested tree at most one child covers an offset, and everything else that covers
it lies on the way to the node at which the search ends.
-/

namespace HclEdit.Tree

/-- The search for an offset goes on from a node to the first child that covers the offset. -/
def Step (tree : Tree) (offset : Nat) (id child : NodeId) : Prop :=
  (tree.children id).find? (fun other => (tree.span other).Covers offset) = some child

/-- A node of the tree that covers an offset. -/
def Encloses (tree : Tree) (offset : Nat) (id : NodeId) : Prop :=
  id < tree.size ∧ (tree.span id).Covers offset

variable {tree : Tree} {offset : Nat}

/-! ### The search ends -/

theorem Linked.parent?_of_step (hlinked : tree.Linked) {id child : NodeId}
    (hstep : tree.Step offset id child) : tree.parent? child = some id :=
  hlinked.mem_children_iff.1 (List.mem_of_find?_eq_some hstep)

theorem Linked.not_step_of_size_le (hlinked : tree.Linked) {id : NodeId} (hid : tree.size ≤ id)
    (child : NodeId) : ¬ tree.Step offset id child := by
  intro hstep
  have hparent := hlinked.parent?_of_step hstep
  have hlt : id < tree.size :=
    Nat.lt_trans (hlinked.parent_lt child id hparent) (lt_size_of_parent? hparent)
  exact absurd hlt (Nat.not_lt_of_le hid)

theorem Linked.steps_descend (hlinked : tree.Linked) {steps : Nat} {id : NodeId}
    (hsteps : tree.size ≤ id + steps) :
    Relation.ReflTransGen (tree.Step offset) id (tree.descend offset steps id) ∧
      ∀ child, ¬ tree.Step offset (tree.descend offset steps id) child := by
  induction steps generalizing id with
  | zero => exact ⟨.refl, hlinked.not_step_of_size_le hsteps⟩
  | succ steps ih =>
      unfold descend
      split
      · next hfind =>
          refine ⟨.refl, fun child hstep => ?_⟩
          cases hfind.symm.trans hstep
      · next child hfind =>
          -- A child has a greater id, so there is one step less to go.
          have hchild : tree.size ≤ child + steps :=
            calc tree.size
                ≤ id + (steps + 1) := hsteps
              _ = id + 1 + steps := Nat.add_right_comm id steps 1
              _ ≤ child + steps := Nat.add_le_add_right
                  (hlinked.parent_lt child id (hlinked.parent?_of_step hfind)) steps
          obtain ⟨hreaches, hends⟩ := ih hchild
          exact ⟨.head hfind hreaches, hends⟩

/-! ### Where it ends -/

theorem Encloses.of_innermostAt_ne_root (hlinked : tree.Linked) (hsize : 0 < tree.size)
    (hroot : tree.innermostAt offset ≠ root) : tree.Encloses offset (tree.innermostAt offset) := by
  constructor
  · exact (hlinked.below_descend offset tree.size root).lt_size hsize
  · exact (tree.covers_descend offset tree.size root).resolve_left hroot

theorem Nested.innermostAt_ne_root (hnested : tree.Nested) {id : NodeId} (hroot : id ≠ root)
    (hencloses : tree.Encloses offset id) : tree.innermostAt offset ≠ root := by
  have hbelow := hnested.below_innermostAt hencloses.1 hencloses.2
  have hle := hnested.le_of_below hbelow
  intro hinnermost
  rw [hinnermost] at hle
  exact hroot (Nat.le_zero.1 hle)

theorem Nested.eq_or_mem_ancestors_innermostAt (hnested : tree.Nested) {id : NodeId}
    (hencloses : tree.Encloses offset id) :
    id = tree.innermostAt offset ∨ id ∈ tree.ancestors (tree.innermostAt offset) := by
  by_cases hid : id = tree.innermostAt offset
  · exact .inl hid
  · have hbelow := hnested.below_innermostAt hencloses.1 hencloses.2
    exact .inr (hnested.mem_ancestors_iff_below.2 ⟨hbelow, hid⟩)

/-- **The search finds the innermost node.** In every tree it takes steps from the root until none
is left. In a nested tree it ends at a node that covers the offset, if one other than the root does,
and every node that covers the offset is that node or above it; if none does, it ends at the root.
Trees that are built are nested, and so are the trees of nested parses. -/
theorem innermostAt_encloses (offset : Nat) :
    (∀ tree : Tree, tree.Made →
      Relation.ReflTransGen (tree.Step offset) root (tree.innermostAt offset) ∧
        ∀ child, ¬ tree.Step offset (tree.innermostAt offset) child) ∧
    (∀ tree : Tree, tree.Nested →
      ((∃ id, id ≠ root ∧ tree.Encloses offset id) →
        tree.innermostAt offset ≠ root ∧ tree.Encloses offset (tree.innermostAt offset) ∧
          ∀ id, tree.Encloses offset id →
            id = tree.innermostAt offset ∨ id ∈ tree.ancestors (tree.innermostAt offset)) ∧
      ((¬ ∃ id, id ≠ root ∧ tree.Encloses offset id) → tree.innermostAt offset = root)) ∧
    (∀ source calls tree, Tree.build source calls = .ok tree → tree.Nested) ∧
    ∀ source parse, parse.IsPreorder → parse.IsNested source → (ofParse source parse).Nested := by
  refine ⟨?ends, ?finds, ?built, ?parsed⟩
  case ends =>
    intro tree hmade
    exact hmade.linked.steps_descend (Nat.le_add_left _ _)
  case finds =>
    intro tree hnested
    constructor
    · rintro ⟨id, hid, hencloses⟩
      have hroot := hnested.innermostAt_ne_root hid hencloses
      have hsize := Nat.zero_lt_of_lt hencloses.1
      refine ⟨hroot, .of_innermostAt_ne_root hnested.toLinked hsize hroot, fun other hother => ?_⟩
      exact hnested.eq_or_mem_ancestors_innermostAt hother
    · intro hnone
      by_contra hroot
      by_cases hsize : 0 < tree.size
      · exact hnone ⟨_, hroot, .of_innermostAt_ne_root hnested.toLinked hsize hroot⟩
      · have hempty : tree.size = 0 := by omega
        apply hroot
        rw [innermostAt, hempty]
        rfl
  case built => exact fun source calls tree hbuild => nested_build hbuild
  case parsed => exact fun source parse hpreorder hnested => nested_ofParse hpreorder hnested

/-- An empty node between two that touch, a gap behind them, and text behind the body. -/
def gappedCalls : List Draft.Call :=
  [.opening "config_file" ⟨0, 9⟩, .opening "body" ⟨0, 7⟩, .leaf "attribute" ⟨0, 2⟩,
    .leaf "attribute" ⟨2, 2⟩, .leaf "attribute" ⟨2, 4⟩, .leaf "block" ⟨5, 7⟩, .closing, .closing]

def gappedTree : Tree :=
  (gappedCalls.foldl Draft.call (.new "a b   c \n".toList)).tree

theorem innermostAt_gapped :
    Tree.build "a b   c \n".toList gappedCalls = .ok gappedTree ∧
      Relation.ReflTransGen (gappedTree.Step 2) root (gappedTree.innermostAt 2) ∧
      gappedTree.innermostAt 2 ≠ root ∧ gappedTree.Encloses 2 (gappedTree.innermostAt 2) ∧
      (1 = gappedTree.innermostAt 2 ∨ 1 ∈ gappedTree.ancestors (gappedTree.innermostAt 2)) ∧
      gappedTree.innermostAt 2 = 4 ∧ gappedTree.innermostAt 4 = 1 ∧
      gappedTree.innermostAt 20 = root := by
  have hbuild : Tree.build "a b   c \n".toList gappedCalls = .ok gappedTree := rfl
  obtain ⟨hends, hfinds, hbuilt, -⟩ := innermostAt_encloses 2
  have hnested := hbuilt _ _ _ hbuild
  have hthere : ∃ id, id ≠ root ∧ gappedTree.Encloses 2 id :=
    ⟨4, by decide, by decide, by decide⟩
  obtain ⟨hroot, hencloses, habove⟩ := (hfinds _ hnested).1 hthere
  have hbody : gappedTree.Encloses 2 1 := ⟨by decide, by decide⟩
  have hnone : ∀ id < 6, ¬ (gappedTree.span id).Covers 20 := by decide
  refine ⟨hbuild, (hends _ (.built hbuild)).1, hroot, hencloses, habove 1 hbody, rfl, rfl, ?_⟩
  apply ((innermostAt_encloses 20).2.1 _ hnested).2
  rintro ⟨id, -, hsize, hcovers⟩
  exact hnone id hsize hcovers

end HclEdit.Tree
