import HclEdit.Proofs.Tree.Arranged
import HclEdit.Proofs.Tree.Search
import Mathlib.Data.List.Sort

/-!
# What lies below a node

In an arranged tree the nodes below a node are the ones right after it, up to where its subtree
ends. They are the subtrees of its children one after the other, and siblings are reached from each
other by their positions.
-/

namespace HclEdit.Tree

variable {tree : Tree}

/-! ### Ancestors -/

theorem Linked.mem_ancestors_iff (hlinked : tree.Linked) {top id : NodeId} :
    top ∈ tree.ancestors id ↔ ∃ parent, tree.parent? id = some parent ∧ tree.Below top parent := by
  induction id using Nat.strongRecOn with
  | ind id ih =>
      cases hparent : tree.parent? id with
      | none => simp [ancestors_of_eq_none hparent]
      | some parent =>
          rw [hlinked.ancestors_of_eq_some hparent, List.mem_cons,
            ih parent (hlinked.parent_lt id parent hparent)]
          simp only [Option.some.injEq, exists_eq_left']
          constructor
          · rintro (rfl | ⟨above, habove, hbelow⟩)
            · exact .self
            · exact .child habove hbelow
          · rintro (_ | ⟨habove, hbelow⟩)
            · exact .inl rfl
            · exact .inr ⟨_, habove, hbelow⟩

theorem Linked.mem_ancestors_iff_below (hlinked : tree.Linked) {top id : NodeId} :
    top ∈ tree.ancestors id ↔ tree.Below top id ∧ top ≠ id := by
  rw [hlinked.mem_ancestors_iff]
  constructor
  · rintro ⟨parent, hparent, hbelow⟩
    refine ⟨.child hparent hbelow, Nat.ne_of_lt ?_⟩
    exact Nat.lt_of_le_of_lt (hlinked.le_of_below hbelow) (hlinked.parent_lt id parent hparent)
  · rintro ⟨hbelow, hne⟩
    cases hbelow with
    | self => exact absurd rfl hne
    | child hparent hbelow => exact ⟨_, hparent, hbelow⟩

theorem Linked.below_iff_eq_or_mem_ancestors (hlinked : tree.Linked) {top id : NodeId} :
    tree.Below top id ↔ top = id ∨ top ∈ tree.ancestors id := by
  rw [hlinked.mem_ancestors_iff_below]
  constructor
  · intro hbelow
    by_cases hid : top = id
    · exact .inl hid
    · exact .inr ⟨hbelow, hid⟩
  · rintro (rfl | ⟨hbelow, -⟩)
    · exact .self
    · exact hbelow

section Arranged

variable (harranged : tree.Arranged)
include harranged

/-- Following parents ends at the root. -/
theorem Arranged.getLast?_ancestors {id : NodeId} (hid : id < tree.size) (hroot : id ≠ root) :
    (tree.ancestors id).getLast? = some root := by
  induction id using Nat.strongRecOn with
  | ind id ih =>
      cases hparent : tree.parent? id with
      | none => exact absurd (harranged.rooted id hid hparent) hroot
      | some parent =>
          have hlt := harranged.parent_lt id parent hparent
          rw [harranged.ancestors_of_eq_some hparent]
          by_cases hparentRoot : parent = root
          · rw [hparentRoot, ancestors_of_eq_none harranged.parent?_root]
            rfl
          · rw [List.getLast?_cons, ih parent hlt (Nat.lt_trans hlt hid) hparentRoot]
            rfl

/-! ### The range of a subtree -/

theorem Arranged.stop_le_of_below {top id : NodeId} (hbelow : tree.Below top id) :
    tree.stop id ≤ tree.stop top := by
  induction hbelow with
  | self => exact Nat.le_refl _
  | child hparent _ ih => exact Nat.le_trans (harranged.stop_le hparent) ih

theorem Arranged.below_of_lt_stop {id other : NodeId} (hid : id < tree.size) (hle : id ≤ other)
    (hstop : other < tree.stop id) : tree.Below id other := by
  induction other using Nat.strongRecOn with
  | ind other ih =>
      rcases Nat.eq_or_lt_of_le hle with rfl | hlt
      · exact .self
      · obtain ⟨parent, hparent, hle⟩ := harranged.between_stop hid hlt hstop
        have hparentLt := harranged.parent_lt other parent hparent
        exact .child hparent (ih parent hparentLt hle (Nat.lt_trans hparentLt hstop))

theorem Arranged.below_iff {id other : NodeId} (hid : id < tree.size) :
    tree.Below id other ↔ id ≤ other ∧ other < tree.stop id := by
  constructor
  · intro hbelow
    refine ⟨harranged.le_of_below hbelow, ?_⟩
    exact Nat.lt_of_lt_of_le (harranged.lt_stop (hbelow.lt_size hid))
      (harranged.stop_le_of_below hbelow)
  · rintro ⟨hle, hstop⟩
    exact harranged.below_of_lt_stop hid hle hstop

omit harranged in
theorem mem_descendants {id other : NodeId} :
    other ∈ tree.descendants id ↔ id < other ∧ other < tree.stop id := by
  have hrange : ∀ first last id : Nat, first + 1 ≤ id ∧ id < first + 1 + (last - (first + 1)) ↔
      first < id ∧ id < last := by omega
  rw [descendants, List.mem_range'_1]
  exact hrange id (tree.stop id) other

/-- **A node lies below its ancestors.** -/
theorem Arranged.mem_descendants_iff {id other : NodeId} (hid : id < tree.size) :
    other ∈ tree.descendants id ↔ id ∈ tree.ancestors other := by
  rw [mem_descendants, harranged.mem_ancestors_iff_below, harranged.below_iff hid]
  constructor
  · rintro ⟨hlt, hstop⟩
    exact ⟨⟨Nat.le_of_lt hlt, hstop⟩, Nat.ne_of_lt hlt⟩
  · rintro ⟨⟨hle, hstop⟩, hne⟩
    exact ⟨Nat.lt_of_le_of_ne hle hne, hstop⟩

omit harranged in
theorem pairwise_descendants (id : NodeId) : (tree.descendants id).Pairwise (· < ·) :=
  List.pairwise_lt_range' 1

theorem Arranged.lt_size_of_mem_descendants {id other : NodeId}
    (hmem : other ∈ tree.descendants id) : other < tree.size :=
  Nat.lt_of_lt_of_le (mem_descendants.1 hmem).2 (harranged.stop_le_size id)

theorem Arranged.descendants_eq_filter {id : NodeId} (hid : id < tree.size) :
    tree.descendants id =
      (List.range tree.size).filter fun other => decide (id ∈ tree.ancestors other) := by
  refine (pairwise_descendants id).eq_of_mem_iff
    (List.Pairwise.filter _ List.pairwise_lt_range) fun other => ?_
  rw [List.mem_filter, List.mem_range, decide_eq_true_iff, ← harranged.mem_descendants_iff hid]
  exact (and_iff_right_of_imp harranged.lt_size_of_mem_descendants).symm

/-! ### Children -/

theorem Arranged.mem_cons_descendants_iff {id other : NodeId} (hid : id < tree.size) :
    other ∈ id :: tree.descendants id ↔ tree.Below id other := by
  rw [harranged.below_iff hid, List.mem_cons, mem_descendants]
  constructor
  · rintro (rfl | ⟨hlt, hother⟩)
    · exact ⟨Nat.le_refl _, harranged.lt_stop hid⟩
    · exact ⟨Nat.le_of_lt hlt, hother⟩
  · rintro ⟨hle, hother⟩
    exact (Nat.eq_or_lt_of_le hle).imp Eq.symm fun hlt => ⟨hlt, hother⟩

/-- The nodes below a node are its children, each with the nodes below it. -/
theorem Arranged.descendants_eq_flatMap {id : NodeId} (hid : id < tree.size) :
    tree.descendants id =
      (tree.children id).flatMap fun child => child :: tree.descendants child := by
  have hchildLt : ∀ child ∈ tree.children id, child < tree.size := fun child hchild =>
    lt_size_of_parent? (harranged.mem_children_iff.1 hchild)
  refine (pairwise_descendants id).eq_of_mem_iff ?sorted fun other => ?same
  case sorted =>
    refine List.pairwise_flatMap.2 ⟨fun child _ => ?_, ?_⟩
    · exact List.pairwise_cons.2
        ⟨fun other hother => (mem_descendants.1 hother).1, pairwise_descendants child⟩
    · refine (harranged.pairwise_children id).imp_of_mem fun {left right} hleft hright hlt => ?_
      intro first hfirst last hlast
      rw [harranged.mem_cons_descendants_iff (hchildLt left hleft),
        harranged.below_iff (hchildLt left hleft)] at hfirst
      rw [harranged.mem_cons_descendants_iff (hchildLt right hright),
        harranged.below_iff (hchildLt right hright)] at hlast
      calc first
          < tree.stop left := hfirst.2
        _ ≤ right := harranged.stop_le_sibling (harranged.mem_children_iff.1 hleft)
            (harranged.mem_children_iff.1 hright) hlt
        _ ≤ last := hlast.1
  case same =>
    rw [harranged.mem_descendants_iff hid, harranged.mem_ancestors_iff_below, List.mem_flatMap]
    constructor
    · rintro ⟨hbelow, hne⟩
      obtain ⟨child, hparent, hbelow⟩ := hbelow.eq_or_child.resolve_left (Ne.symm hne)
      exact ⟨child, harranged.mem_children_iff.2 hparent,
        (harranged.mem_cons_descendants_iff (lt_size_of_parent? hparent)).2 hbelow⟩
    · rintro ⟨child, hchild, hother⟩
      have hparent := harranged.mem_children_iff.1 hchild
      have hbelow := (harranged.mem_cons_descendants_iff (hchildLt child hchild)).1 hother
      refine ⟨(Below.child hparent .self).trans hbelow, Nat.ne_of_lt ?_⟩
      exact Nat.lt_of_lt_of_le (harranged.parent_lt child id hparent)
        (harranged.le_of_below hbelow)

/-! ### Siblings -/

theorem Arranged.position_of_child? {parent id : NodeId} {index : Nat}
    (hchild : tree.child? parent index = some id) :
    tree.parent? id = some parent ∧ (tree.node id).position = index := by
  have hparent := harranged.mem_children_iff.1 (List.mem_of_getElem? hchild)
  refine ⟨hparent, ?_⟩
  have hnodup : (tree.children parent).Nodup :=
    (harranged.pairwise_children parent).imp Nat.ne_of_lt
  have hplaced := harranged.placed id parent hparent
  exact (List.getElem?_inj (List.getElem?_eq_some_iff.1 hplaced).1 hnodup).1
    (hplaced.trans hchild.symm)

theorem Arranged.nextSibling?_of_child? {parent id : NodeId} {index : Nat}
    (hchild : tree.child? parent index = some id) :
    tree.nextSibling? id = tree.child? parent (index + 1) := by
  obtain ⟨hparent, hposition⟩ := harranged.position_of_child? hchild
  rw [nextSibling?, hparent, hposition]
  rfl

theorem Arranged.nextSibling?_of_children_eq {parent id : NodeId} {before rest : List NodeId}
    (hchildren : tree.children parent = before ++ id :: rest) :
    tree.nextSibling? id = rest.head? := by
  have hid : tree.child? parent before.length = some id := by
    rw [child?, hchildren, List.getElem?_append_right (Nat.le_refl _), Nat.sub_self]
    rfl
  rw [harranged.nextSibling?_of_child? hid, child?, hchildren,
    List.getElem?_append_right (Nat.le_add_right _ 1), Nat.add_sub_cancel_left,
    List.getElem?_cons_succ, List.head?_eq_getElem?]

theorem Arranged.previousSibling?_of_child?_zero {parent id : NodeId}
    (hchild : tree.child? parent 0 = some id) : tree.previousSibling? id = none := by
  rw [previousSibling?, (harranged.position_of_child? hchild).2]

theorem Arranged.previousSibling?_of_child?_succ {parent id : NodeId} {index : Nat}
    (hchild : tree.child? parent (index + 1) = some id) :
    tree.previousSibling? id = tree.child? parent index := by
  obtain ⟨hparent, hposition⟩ := harranged.position_of_child? hchild
  rw [previousSibling?, hposition, hparent]
  rfl

theorem Arranged.nextSibling?_eq_some_iff {left right : NodeId} :
    tree.nextSibling? left = some right ↔ tree.previousSibling? right = some left := by
  constructor
  · intro hnext
    obtain ⟨parent, hparent, hright⟩ := Option.bind_eq_some_iff.1 hnext
    rw [harranged.previousSibling?_of_child?_succ hright]
    exact harranged.placed left parent hparent
  · intro hprevious
    unfold previousSibling? at hprevious
    split at hprevious
    · exact absurd hprevious nofun
    · next position hposition =>
        obtain ⟨parent, hparent, hleft⟩ := Option.bind_eq_some_iff.1 hprevious
        have hright := harranged.placed right parent hparent
        rw [hposition] at hright
        exact (harranged.nextSibling?_of_child? hleft).trans hright

end Arranged

/-- **The nodes of a tree in their array.** The root comes first and is the only node without a
parent. Every other node comes after its parent, and following parents ends at the root. The
children of a node are the nodes with that parent, in order; each stands at its position, and
siblings lead from one to the next and back. The nodes below a node are those with the node among
their ancestors, and stand right after it up to where the subtree of its last child ends. -/
theorem nodes_in_preorder (hmade : tree.WellMade) :
    (0 < tree.size ∧ ∀ id, id < tree.size → (tree.parent? id = none ↔ id = root)) ∧
      (∀ id parent, tree.parent? id = some parent → parent < id ∧ id < tree.size) ∧
      (∀ id, tree.ancestors id =
        (tree.parent? id).elim [] fun parent => parent :: tree.ancestors parent) ∧
      (∀ id, id < tree.size → id ≠ root → (tree.ancestors id).getLast? = some root) ∧
      (∀ id, tree.children id =
        (List.range tree.size).filter fun child => tree.parent? child = some id) ∧
      (∀ id parent, tree.parent? id = some parent →
        tree.child? parent (tree.node id).position = some id) ∧
      (∀ left right,
        tree.nextSibling? left = some right ↔ tree.previousSibling? right = some left) ∧
      (∀ parent index id, tree.child? parent index = some id →
        tree.nextSibling? id = tree.child? parent (index + 1)) ∧
      (∀ parent id, tree.child? parent 0 = some id → tree.previousSibling? id = none) ∧
      (∀ parent index id, tree.child? parent (index + 1) = some id →
        tree.previousSibling? id = tree.child? parent index) ∧
      (tree.nextSibling? root = none ∧ tree.previousSibling? root = none) ∧
      ∀ id, id < tree.size →
        tree.descendants id =
            (List.range tree.size).filter (fun other => id ∈ tree.ancestors other) ∧
          (∀ other, other ∈ tree.descendants id ↔
            id < other ∧ other < (tree.node id).subtreeEnd) ∧
          id < (tree.node id).subtreeEnd ∧ (tree.node id).subtreeEnd ≤ tree.size ∧
          (tree.node id).subtreeEnd =
            (tree.children id).getLast?.elim (id + 1) fun last => (tree.node last).subtreeEnd := by
  have harranged := hmade.arranged
  refine ⟨⟨harranged.nonempty, ?root⟩, ?parents, ?ancestors, ?top, harranged.children_eq,
    harranged.placed, ?inverse, ?next, ?first, ?previous, ?alone, ?descendants⟩
  case root =>
    intro id hid
    refine ⟨harranged.rooted id hid, ?_⟩
    rintro rfl
    exact harranged.parent?_root
  case parents =>
    intro id parent hparent
    exact ⟨harranged.parent_lt id parent hparent, lt_size_of_parent? hparent⟩
  case ancestors =>
    intro id
    cases hparent : tree.parent? id with
    | none => exact ancestors_of_eq_none hparent
    | some parent => exact harranged.ancestors_of_eq_some hparent
  case top => exact fun id hid hroot => harranged.getLast?_ancestors hid hroot
  case inverse => exact fun left right => harranged.nextSibling?_eq_some_iff
  case next => exact fun parent index id hchild => harranged.nextSibling?_of_child? hchild
  case first => exact fun parent id hchild => harranged.previousSibling?_of_child?_zero hchild
  case previous =>
    exact fun parent index id hchild => harranged.previousSibling?_of_child?_succ hchild
  case alone =>
    have hroot := harranged.parent?_root
    constructor
    · rw [nextSibling?, hroot]
      rfl
    · unfold previousSibling?
      split
      · rfl
      · rw [hroot]
        rfl
  case descendants =>
    intro id hid
    exact ⟨harranged.descendants_eq_filter hid, fun other => mem_descendants,
      harranged.lt_stop hid, harranged.stop_le_size id, harranged.stop_eq id hid⟩

/-- A root with a branch of two leaves, and a branch of one behind it. -/
def forkedParse : ParseTree :=
  [ ⟨0, "config_file", ⟨0, 8⟩, true, false, false, false⟩,
    ⟨1, "body", ⟨0, 4⟩, true, false, false, false⟩,
    ⟨2, "attribute", ⟨0, 2⟩, true, false, false, false⟩,
    ⟨2, "attribute", ⟨2, 4⟩, true, false, false, false⟩,
    ⟨1, "body", ⟨5, 8⟩, true, false, false, false⟩,
    ⟨2, "block", ⟨5, 8⟩, true, false, false, false⟩ ]

theorem nodes_forked :
    let tree := ofParse "x y\nz w\n".toList forkedParse
    forkedParse.IsPreorder ∧ tree.WellMade ∧ tree.ancestors 3 = [1, 0] ∧
      tree.nextSibling? 1 = some 4 ∧ tree.previousSibling? 4 = some 1 ∧
      tree.descendants 1 = (List.range 6).filter (fun other => 1 ∈ tree.ancestors other) ∧
      (∀ other, other ∈ tree.descendants 1 ↔ 1 < other ∧ other < 4) ∧
      (tree.node 1).subtreeEnd = (tree.node 3).subtreeEnd := by
  intro tree
  have hpreorder : forkedParse.IsPreorder := by
    simp [forkedParse, ParseTree.IsPreorder, ParseTree.Continues]
  have hmade : tree.WellMade := .parsed _ hpreorder
  obtain ⟨-, -, hancestors, -, -, -, hinverse, hnext, -, -, -, hdescendants⟩ :=
    nodes_in_preorder hmade
  have hsibling : tree.nextSibling? 1 = some 4 := hnext 0 0 1 rfl
  obtain ⟨hfilter, hmem, -, -, hstop⟩ := hdescendants 1 (by decide)
  exact ⟨hpreorder, hmade, hancestors 3, hsibling, (hinverse 1 4).1 hsibling, hfilter, hmem, hstop⟩

end HclEdit.Tree
