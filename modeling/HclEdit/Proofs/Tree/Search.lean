import HclEdit.Proofs.Tree.Nested
import HclEdit.Tree.Search

/-!
# Where a search by offset ends

In a nested tree the innermost node at an offset lies below every node that covers the offset. A
node that covers its own start is therefore passed on the way up from there, and the search for the
outermost node that starts there ends at that node or above it.
-/

namespace HclEdit.Tree

/-- A node and all nodes that it holds. -/
inductive Below (tree : Tree) (top : NodeId) : NodeId → Prop where
  | self : Below tree top top
  | child {id parent : NodeId} (hparent : tree.parent? id = some parent)
      (hbelow : Below tree top parent) : Below tree top id

variable {tree : Tree}

/-! ### Below a node -/

theorem Below.trans {top middle id : NodeId} (htop : tree.Below top middle)
    (hid : tree.Below middle id) : tree.Below top id := by
  induction hid with
  | self => exact htop
  | child hparent _ ih => exact .child hparent ih

theorem Linked.le_of_below (hlinked : tree.Linked) {top id : NodeId} (hbelow : tree.Below top id) :
    top ≤ id := by
  induction hbelow with
  | self => exact Nat.le_refl _
  | child hparent _ ih => exact Nat.le_trans ih (Nat.le_of_lt (hlinked.parent_lt _ _ hparent))

theorem Nested.within_of_below (hnested : tree.Nested) {top id : NodeId}
    (hbelow : tree.Below top id) : (tree.span id).Within (tree.span top) := by
  induction hbelow with
  | self => exact ⟨Nat.le_refl _, Nat.le_refl _⟩
  | child hparent _ ih =>
      have hwithin := hnested.within _ _ hparent
      exact ⟨Nat.le_trans ih.1 hwithin.1, Nat.le_trans hwithin.2 ih.2⟩

theorem Below.eq_or_child {top id : NodeId} (hbelow : tree.Below top id) :
    id = top ∨ ∃ child, tree.parent? child = some top ∧ tree.Below child id := by
  induction hbelow with
  | self => exact .inl rfl
  | child hparent _ ih =>
      rcases ih with rfl | ⟨child, hchild, hbelow⟩
      · exact .inr ⟨_, hparent, .self⟩
      · exact .inr ⟨child, hchild, .child hparent hbelow⟩

theorem Below.lt_size {top id : NodeId} (hbelow : tree.Below top id) (htop : top < tree.size) :
    id < tree.size := by
  cases hbelow with
  | self => exact htop
  | child hparent _ => exact lt_size_of_parent? hparent

theorem Linked.below_root (hlinked : tree.Linked)
    (hrooted : ∀ id, id < tree.size → tree.parent? id = none → id = root) {id : NodeId}
    (hid : id < tree.size) : tree.Below root id := by
  induction id using Nat.strongRecOn with
  | ind id ih =>
      cases hparent : tree.parent? id with
      | none =>
          rw [hrooted id hid hparent]
          exact .self
      | some parent =>
          have hlt := hlinked.parent_lt id parent hparent
          exact .child hparent (ih parent hlt (Nat.lt_trans hlt hid))

/-! ### Going down -/

theorem Nested.covers_of_below (hnested : tree.Nested) {top id : NodeId} {offset : Nat}
    (hbelow : tree.Below top id) (hcovers : (tree.span id).Covers offset) :
    (tree.span top).Covers offset := by
  have hwithin := hnested.within_of_below hbelow
  exact ⟨Nat.le_trans hwithin.1 hcovers.1, Nat.lt_of_lt_of_le hcovers.2 hwithin.2⟩

/-- At most one child of a node covers an offset, so the first one found is that one. -/
theorem Nested.find?_children (hnested : tree.Nested) {id child : NodeId} {offset : Nat}
    (hchild : tree.parent? child = some id) (hcovers : (tree.span child).Covers offset) :
    (tree.children id).find? (fun other => (tree.span other).Covers offset) = some child := by
  have hmem := hnested.mem_children_iff.2 hchild
  obtain ⟨front, back, hsplit⟩ := List.append_of_mem hmem
  have hordered := hnested.ordered id
  rw [hsplit, List.pairwise_append] at hordered
  rw [List.find?_eq_some_iff_append]
  refine ⟨decide_eq_true hcovers, front, back, hsplit, fun other hother => ?_⟩
  have hbefore := hordered.2.2 other hother child List.mem_cons_self
  rw [Bool.not_eq_true', decide_eq_false_iff_not]
  intro hboth
  exact absurd (Nat.lt_of_lt_of_le hboth.2 hbefore) (Nat.not_lt_of_le hcovers.1)

theorem Linked.below_descend (hlinked : tree.Linked) (offset steps : Nat) (id : NodeId) :
    tree.Below id (tree.descend offset steps id) := by
  induction steps generalizing id with
  | zero => exact .self
  | succ steps ih =>
      unfold descend
      split
      · exact .self
      · next child hfind =>
          have hchild := hlinked.mem_children_iff.1 (List.mem_of_find?_eq_some hfind)
          exact (Below.child hchild .self).trans (ih child)

/-- Going down comes past every node that covers the offset. -/
theorem Nested.below_descend_of_covers (hnested : tree.Nested) {top id : NodeId} {offset : Nat}
    (hcovers : (tree.span top).Covers offset) (hbelow : tree.Below id top) {steps : Nat}
    (hsteps : tree.size ≤ id + steps) : tree.Below top (tree.descend offset steps id) := by
  induction steps generalizing id with
  | zero =>
      rcases hbelow.eq_or_child with rfl | ⟨child, hchild, -⟩
      · exact .self
      -- A child has a greater id, so the steps cannot run out above one.
      · have hlt := hnested.parent_lt child id hchild
        have hsize := lt_size_of_parent? hchild
        exact absurd (Nat.lt_trans hlt hsize) (Nat.not_lt_of_le hsteps)
  | succ steps ih =>
      rcases hbelow.eq_or_child with rfl | ⟨child, hchild, hbelow⟩
      · exact hnested.below_descend offset (steps + 1) top
      · have hchildSteps : tree.size ≤ child + steps :=
          calc tree.size
              ≤ id + (steps + 1) := hsteps
            _ = id + 1 + steps := Nat.add_right_comm id steps 1
            _ ≤ child + steps :=
                Nat.add_le_add_right (hnested.parent_lt child id hchild) steps
        unfold descend
        rw [hnested.find?_children hchild (hnested.covers_of_below hbelow hcovers)]
        exact ih hbelow hchildSteps

theorem covers_descend (offset steps : Nat) (id : NodeId) :
    tree.descend offset steps id = id ∨
      (tree.span (tree.descend offset steps id)).Covers offset := by
  induction steps generalizing id with
  | zero => exact .inl rfl
  | succ steps ih =>
      unfold descend
      split
      · exact .inl rfl
      · next child hfind =>
          have hcovers : (tree.span child).Covers offset := by
            simpa using List.find?_some hfind
          rcases ih child with hdescend | hdescend
          · rw [hdescend]
            exact .inr hcovers
          · exact .inr hdescend

theorem Nested.below_innermostAt (hnested : tree.Nested) {id : NodeId} {offset : Nat}
    (hid : id < tree.size) (hcovers : (tree.span id).Covers offset) :
    tree.Below id (tree.innermostAt offset) :=
  hnested.below_descend_of_covers hcovers (hnested.below_root hnested.rooted hid)
    (Nat.le_add_left _ _)

/-! ### Going up -/

theorem Nested.climb_of_below (hnested : tree.Nested) {top id : NodeId} {offset : Nat}
    (htop : top ≠ root) (hbelow : tree.Below top id) (hstart : (tree.span top).start = offset)
    (hid : (tree.span id).start = offset) {steps : Nat} (hsteps : id ≤ steps) :
    ∃ rest, top ≤ rest ∧ tree.climb offset steps id = tree.climb offset rest top := by
  induction hbelow generalizing steps with
  | self => exact ⟨steps, hsteps, rfl⟩
  | @child id parent hparent hbelow ih =>
      have hlt := hnested.parent_lt id parent hparent
      have hle := hnested.le_of_below hbelow
      have hparentStart : (tree.span parent).start = offset := by
        have habove := (hnested.within_of_below hbelow).1
        have hown := (hnested.within id parent hparent).1
        omega
      have hroot : parent ≠ root := by
        rintro rfl
        exact htop (Nat.le_zero.1 hle)
      have hpos := Nat.lt_of_lt_of_le (Nat.zero_lt_of_lt hlt) hsteps
      obtain ⟨steps, rfl⟩ := Nat.exists_eq_add_one_of_ne_zero (Nat.ne_of_gt hpos)
      obtain ⟨rest, hrest, hclimb⟩ :=
        ih hparentStart (Nat.le_of_lt_succ (Nat.lt_of_lt_of_le hlt hsteps))
      refine ⟨rest, hrest, ?_⟩
      rw [← hclimb]
      rw [climb, hparent]
      simp [hroot, hparentStart]

theorem climb_of_parent {id parent : NodeId} {offset : Nat}
    (hparent : tree.parent? id = some parent)
    (hstop : parent = root ∨ (tree.span parent).start ≠ offset) (steps : Nat) :
    tree.climb offset steps id = id := by
  cases steps with
  | zero => rfl
  | succ steps =>
      rw [climb, hparent]
      exact if_pos hstop

/-- **The outermost node at the start of a node.** The search goes up from the node itself. -/
theorem Nested.outermostStartingAt?_start (hnested : tree.Nested) {id : NodeId}
    (hid : id < tree.size) (hroot : id ≠ root)
    (hnonempty : (tree.span id).start < (tree.span id).stop) :
    ∃ steps, id ≤ steps ∧ tree.outermostStartingAt? (tree.span id).start =
      some (tree.climb (tree.span id).start steps id) := by
  have hbelow := hnested.below_innermostAt hid ⟨Nat.le_refl _, hnonempty⟩
  generalize hleaf : tree.innermostAt (tree.span id).start = leaf at hbelow
  have hleafRoot : leaf ≠ root := by
    rintro rfl
    exact hroot (Nat.le_zero.1 (hnested.le_of_below hbelow))
  have hleafStart : (tree.span leaf).start = (tree.span id).start := by
    have hdescend := tree.covers_descend (tree.span id).start tree.size root
    rw [show tree.descend _ tree.size root = leaf from hleaf] at hdescend
    have hcovers := hdescend.resolve_left hleafRoot
    exact Nat.le_antisymm hcovers.1 (hnested.within_of_below hbelow).1
  obtain ⟨steps, hsteps, hclimb⟩ :=
    hnested.climb_of_below hroot hbelow rfl hleafStart (Nat.le_of_lt (hbelow.lt_size hid))
  refine ⟨steps, hsteps, ?_⟩
  rw [← hclimb]
  simp [outermostStartingAt?, hleaf, hleafRoot, hleafStart]

theorem Nested.outermostStartingAt?_of_parent (hnested : tree.Nested) {id parent : NodeId}
    (hparent : tree.parent? id = some parent)
    (hstop : parent = root ∨ (tree.span parent).start ≠ (tree.span id).start)
    (hnonempty : (tree.span id).start < (tree.span id).stop) :
    tree.outermostStartingAt? (tree.span id).start = some id := by
  obtain ⟨steps, -, hsearch⟩ := hnested.outermostStartingAt?_start
    (lt_size_of_parent? hparent) (hnested.ne_root_of_parent? hparent) hnonempty
  rw [hsearch, climb_of_parent hparent hstop]

/-- The search does not leave the parent of a node whose grandparent starts elsewhere. -/
theorem Nested.outermostStartingAt?_of_grandParent (hnested : tree.Nested)
    {id parent grandParent : NodeId} (hparent : tree.parent? id = some parent)
    (hgrandParent : tree.parent? parent = some grandParent)
    (hstop : grandParent = root ∨ (tree.span grandParent).start ≠ (tree.span id).start)
    (hnonempty : (tree.span id).start < (tree.span id).stop) :
    tree.outermostStartingAt? (tree.span id).start = some id ∨
      tree.outermostStartingAt? (tree.span id).start = some parent := by
  by_cases hstart : (tree.span parent).start = (tree.span id).start
  · obtain ⟨steps, hsteps, hsearch⟩ := hnested.outermostStartingAt?_start
      (lt_size_of_parent? hparent) (hnested.ne_root_of_parent? hparent) hnonempty
    have hpos := Nat.zero_lt_of_lt (hnested.parent_lt id parent hparent)
    obtain ⟨steps, rfl⟩ :=
      Nat.exists_eq_add_one_of_ne_zero (Nat.ne_of_gt (Nat.lt_of_lt_of_le hpos hsteps))
    have hroot := hnested.ne_root_of_parent? hgrandParent
    have hclimb : tree.climb (tree.span id).start (steps + 1) id =
        tree.climb (tree.span id).start steps parent := by
      rw [climb, hparent]
      simp [hroot, hstart]
    rw [hsearch, hclimb, climb_of_parent hgrandParent hstop]
    exact .inr rfl
  · exact .inl (hnested.outermostStartingAt?_of_parent hparent (.inr hstart) hnonempty)

end HclEdit.Tree
