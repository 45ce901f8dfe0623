import HclEdit.Proofs.Tree.Descendants
import Mathlib.Order.Bounds.Basic

/-!
# The outermost node at an offset

The search for the outermost node goes down to the innermost one and then up, while parents start at
the same offset. In a nested tree it passes every node that starts there and is not empty, so it
ends at the first of them in the order of the nodes, and that one holds all others.
-/

namespace HclEdit.Tree

/-- A node other than the root that starts at an offset and is not empty. -/
def StartsAt (tree : Tree) (offset : Nat) (id : NodeId) : Prop :=
  id < tree.size ∧ id ≠ root ∧ (tree.span id).start = offset ∧ offset < (tree.span id).stop

instance (tree : Tree) (offset : Nat) (id : NodeId) : Decidable (tree.StartsAt offset id) :=
  inferInstanceAs (Decidable (_ ∧ _ ∧ _ ∧ _))

variable {tree : Tree} {offset : Nat}

/-! ### What the search passes on its way up -/

theorem Nested.startsAt_of_below (hnested : tree.Nested) {top id : NodeId}
    (hid : tree.StartsAt offset id) (hbelow : tree.Below top id) (hroot : top ≠ root)
    (hstart : (tree.span top).start = offset) : tree.StartsAt offset top := by
  obtain ⟨hsize, -, -, hstop⟩ := hid
  have hlt : top < tree.size := Nat.lt_of_le_of_lt (hnested.le_of_below hbelow) hsize
  exact ⟨hlt, hroot, hstart, Nat.lt_of_lt_of_le hstop (hnested.within_of_below hbelow).2⟩

/-- Going up from a node that starts at the offset ends at such a node, above the first. -/
theorem Nested.startsAt_climb (hnested : tree.Nested) (steps : Nat) {id : NodeId}
    (hid : tree.StartsAt offset id) :
    tree.StartsAt offset (tree.climb offset steps id) ∧
      tree.Below (tree.climb offset steps id) id := by
  induction steps generalizing id with
  | zero => exact ⟨hid, .self⟩
  | succ steps ih =>
      unfold climb
      split
      · exact ⟨hid, .self⟩
      · next parent hparent =>
          have hbelow : tree.Below parent id := .child hparent .self
          split
          · exact ⟨hid, .self⟩
          · next hstop =>
              obtain ⟨hroot, hstart⟩ := not_or.1 hstop
              obtain ⟨hclimb, habove⟩ := ih
                (hnested.startsAt_of_below hid hbelow hroot (not_not.1 hstart))
              exact ⟨hclimb, habove.trans hbelow⟩

theorem Nested.startsAt_innermostAt (hnested : tree.Nested) (hsize : 0 < tree.size)
    (hroot : tree.innermostAt offset ≠ root)
    (hstart : (tree.span (tree.innermostAt offset)).start = offset) :
    tree.StartsAt offset (tree.innermostAt offset) := by
  have hcovers := (tree.covers_descend offset tree.size root).resolve_left hroot
  have hbelow := hnested.below_descend offset tree.size root
  exact ⟨hbelow.lt_size hsize, hroot, hstart, hcovers.2⟩

/-! ### Where the search ends -/

theorem Nested.startsAt_of_outermostStartingAt? (hnested : tree.Nested) (hsize : 0 < tree.size)
    {id : NodeId} (hsearch : tree.outermostStartingAt? offset = some id) :
    tree.StartsAt offset id := by
  unfold outermostStartingAt? at hsearch
  dsimp only at hsearch
  split at hsearch
  · exact absurd hsearch nofun
  · next hleaf =>
      obtain ⟨hroot, hstart⟩ := not_or.1 hleaf
      obtain rfl := Option.some.inj hsearch
      have hinnermost := hnested.startsAt_innermostAt hsize hroot (not_not.1 hstart)
      exact (hnested.startsAt_climb tree.size hinnermost).1

theorem Nested.exists_outermostStartingAt? (hnested : tree.Nested) {id : NodeId}
    (hid : tree.StartsAt offset id) :
    ∃ top, tree.outermostStartingAt? offset = some top ∧ tree.Below top id := by
  have hstarts := hid
  obtain ⟨hsize, hroot, rfl, hstop⟩ := hid
  obtain ⟨steps, -, hsearch⟩ := hnested.outermostStartingAt?_start hsize hroot hstop
  exact ⟨_, hsearch, (hnested.startsAt_climb steps hstarts).2⟩

theorem Nested.below_of_outermostStartingAt? (hnested : tree.Nested) {top id : NodeId}
    (hsearch : tree.outermostStartingAt? offset = some top) (hid : tree.StartsAt offset id) :
    tree.Below top id := by
  obtain ⟨found, hfound, hbelow⟩ := hnested.exists_outermostStartingAt? hid
  obtain rfl := Option.some.inj (hfound.symm.trans hsearch)
  exact hbelow

theorem Nested.outermostStartingAt?_eq_none_iff (hnested : tree.Nested) (hsize : 0 < tree.size) :
    tree.outermostStartingAt? offset = none ↔ ∀ id, ¬ tree.StartsAt offset id := by
  constructor
  · intro hnone id hid
    obtain ⟨top, htop, -⟩ := hnested.exists_outermostStartingAt? hid
    exact absurd (hnone.symm.trans htop) nofun
  · intro hnone
    rw [Option.eq_none_iff_forall_ne_some]
    intro id hsearch
    exact hnone id (hnested.startsAt_of_outermostStartingAt? hsize hsearch)

theorem Nested.outermostStartingAt?_eq_some_iff (hnested : tree.Nested) (hsize : 0 < tree.size)
    {id : NodeId} :
    tree.outermostStartingAt? offset = some id ↔
      IsLeast {other | tree.StartsAt offset other} id := by
  constructor
  · intro hsearch
    refine ⟨hnested.startsAt_of_outermostStartingAt? hsize hsearch, fun other hother => ?_⟩
    exact hnested.le_of_below (hnested.below_of_outermostStartingAt? hsearch hother)
  · rintro ⟨hid, hleast⟩
    obtain ⟨top, htop, hbelow⟩ := hnested.exists_outermostStartingAt? hid
    have hle := hleast (hnested.startsAt_of_outermostStartingAt? hsize htop)
    rw [htop, Nat.le_antisymm (hnested.le_of_below hbelow) hle]

/-! ### The nodes one by one -/

theorem find?_eq_some_iff_isLeast {ids : List NodeId} (hsorted : ids.Pairwise (· < ·))
    {p : NodeId → Bool} {id : NodeId} :
    ids.find? p = some id ↔ IsLeast {other | other ∈ ids ∧ p other} id := by
  have hfirst : ∀ first, ids.find? p = some first →
      IsLeast {other | other ∈ ids ∧ p other} first := by
    intro first hfind
    obtain ⟨hp, front, back, rfl, hfront⟩ := List.find?_eq_some_iff_append.1 hfind
    refine ⟨⟨by simp, hp⟩, fun other hother => ?_⟩
    obtain ⟨hmem, hotherP⟩ := hother
    rcases List.mem_append.1 hmem with hmem | hmem
    · have hfails := hfront other hmem
      simp [hotherP] at hfails
    · rcases List.mem_cons.1 hmem with rfl | hmem
      · exact Nat.le_refl _
      · rw [List.pairwise_append, List.pairwise_cons] at hsorted
        exact Nat.le_of_lt (hsorted.2.1.1 other hmem)
  refine ⟨hfirst id, fun hleast => ?_⟩
  cases hfind : ids.find? p with
  | none => exact absurd hleast.1.2 (List.find?_eq_none.1 hfind id hleast.1.1)
  | some first => rw [(hfirst first hfind).unique hleast]

theorem Arranged.mem_descendants_root (harranged : tree.Arranged) {id : NodeId} :
    id ∈ tree.descendants root ↔ id < tree.size ∧ id ≠ root := by
  have hsize : root < tree.size := harranged.nonempty
  rw [harranged.mem_descendants_iff hsize, harranged.mem_ancestors_iff_below]
  constructor
  · rintro ⟨hbelow, hroot⟩
    exact ⟨hbelow.lt_size hsize, hroot.symm⟩
  · rintro ⟨hid, hroot⟩
    exact ⟨harranged.below_root harranged.rooted hid, hroot.symm⟩

theorem Nested.outermostStartingAt?_eq_find? (hnested : tree.Nested) (harranged : tree.Arranged) :
    tree.outermostStartingAt? offset =
      (tree.descendants root).find? fun id => tree.StartsAt offset id := by
  have hset : {other | other ∈ tree.descendants root ∧ decide (tree.StartsAt offset other)} =
      {other | tree.StartsAt offset other} := by
    ext other
    simp only [Set.mem_ofPred_eq, decide_eq_true_iff, harranged.mem_descendants_root]
    exact and_iff_right_of_imp fun hother => ⟨hother.1, hother.2.1⟩
  ext id
  rw [hnested.outermostStartingAt?_eq_some_iff harranged.nonempty,
    find?_eq_some_iff_isLeast (pairwise_descendants root), hset]

/-- **The search for the outermost node is a scan.** In a built tree it finds the first node below
the root that starts at the offset and is not empty, which is the one with the least id, and every
other such node lies below it. It finds nothing only if there is no such node. -/
theorem outermostStartingAt?_scans {source : Text} {calls : List Draft.Call} {tree : Tree}
    (hbuild : Tree.build source calls = .ok tree) (offset : Nat) :
    tree.outermostStartingAt? offset =
        (tree.descendants root).find? (fun id => tree.StartsAt offset id) ∧
      (∀ id, tree.outermostStartingAt? offset = some id ↔
        IsLeast {other | tree.StartsAt offset other} id) ∧
      (∀ id other, tree.outermostStartingAt? offset = some id → tree.StartsAt offset other →
        id = other ∨ id ∈ tree.ancestors other) ∧
      (tree.outermostStartingAt? offset = none ↔ ∀ id, ¬ tree.StartsAt offset id) := by
  have hnested := nested_build hbuild
  have harranged := arranged_build hbuild
  have hsize : 0 < tree.size := harranged.nonempty
  refine ⟨hnested.outermostStartingAt?_eq_find? harranged, ?least, ?above, ?none⟩
  case least => exact fun id => hnested.outermostStartingAt?_eq_some_iff hsize
  case above =>
    intro id other hsearch hother
    apply hnested.below_iff_eq_or_mem_ancestors.1
    exact hnested.below_of_outermostStartingAt? hsearch hother
  case none => exact hnested.outermostStartingAt?_eq_none_iff hsize

/-- An attribute behind an empty one, with a first child that starts where it does. -/
def hiddenCalls : List Draft.Call :=
  [.opening "config_file" ⟨0, 7⟩, .opening "body" ⟨0, 6⟩, .leaf "attribute" ⟨0, 2⟩,
    .leaf "attribute" ⟨2, 2⟩, .opening "attribute" ⟨2, 5⟩, .leaf "identifier" ⟨2, 2⟩,
    .leaf "expression" ⟨2, 4⟩, .closing, .closing, .closing]

def hiddenTree : Tree :=
  (hiddenCalls.foldl Draft.call (.new "a b=c \n".toList)).tree

theorem outermostStartingAt?_hidden :
    Tree.build "a b=c \n".toList hiddenCalls = .ok hiddenTree ∧
      hiddenTree.StartsAt 2 4 ∧ hiddenTree.StartsAt 2 6 ∧
      hiddenTree.outermostStartingAt? 2 = some 4 ∧ 4 ∈ hiddenTree.ancestors 6 ∧
      IsLeast {other | hiddenTree.StartsAt 2 other} 4 ∧
      hiddenTree.outermostStartingAt? 3 = none := by
  have hbuild : Tree.build "a b=c \n".toList hiddenCalls = .ok hiddenTree := rfl
  have hbelow : hiddenTree.StartsAt 2 6 := by decide
  have hnone : ∀ id < hiddenTree.size, ¬ hiddenTree.StartsAt 3 id := by decide
  obtain ⟨hscan, hleast, habove, -⟩ := outermostStartingAt?_scans hbuild 2
  have hsearch : hiddenTree.outermostStartingAt? 2 = some 4 := by
    rw [hscan]
    rfl
  refine ⟨hbuild, by decide, hbelow, hsearch, ?_, (hleast 4).1 hsearch, ?_⟩
  · exact (habove 4 6 hsearch hbelow).resolve_left (by decide)
  · apply (outermostStartingAt?_scans hbuild 3).2.2.2.2
    exact fun id hid => hnone id hid.1 hid

end HclEdit.Tree
