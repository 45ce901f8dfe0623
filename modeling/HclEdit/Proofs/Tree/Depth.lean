import HclEdit.Proofs.Lists
import HclEdit.Proofs.Tree.Descendants
import Mathlib.Data.List.Find

/-!
# How deep a node lies

The depth of a node counts its ancestors. A search that goes down a limited number of levels meets
the nodes in the order in which they stand below the node it starts from, and leaves out those that
lie too deep.
-/

namespace HclEdit.Tree

def depth (tree : Tree) (id : NodeId) : Nat :=
  (tree.ancestors id).length

/-- How many levels there are below a node. -/
def height (tree : Tree) (id : NodeId) : Nat :=
  ((tree.descendants id).map fun below => tree.depth below - tree.depth id).max?.getD 0

variable {tree : Tree}

theorem Linked.depth_of_eq_some (hlinked : tree.Linked) {id parent : NodeId}
    (hparent : tree.parent? id = some parent) : tree.depth id = tree.depth parent + 1 := by
  simp [depth, hlinked.ancestors_of_eq_some hparent]

theorem Linked.depth_le_of_below (hlinked : tree.Linked) {top id : NodeId}
    (hbelow : tree.Below top id) : tree.depth top ≤ tree.depth id := by
  induction hbelow with
  | self => exact Nat.le_refl _
  | child hparent _ ih =>
      have hdepth := hlinked.depth_of_eq_some hparent
      omega

theorem Linked.depth_lt_of_mem_ancestors (hlinked : tree.Linked) {top id : NodeId}
    (hmem : top ∈ tree.ancestors id) : tree.depth top < tree.depth id := by
  obtain ⟨parent, hparent, hbelow⟩ := hlinked.mem_ancestors_iff.1 hmem
  have hle := hlinked.depth_le_of_below hbelow
  have hdepth := hlinked.depth_of_eq_some hparent
  omega

theorem Arranged.depth_lt_of_mem_descendants (harranged : tree.Arranged) {id below : NodeId}
    (hid : id < tree.size) (hbelow : below ∈ tree.descendants id) :
    tree.depth id < tree.depth below :=
  harranged.depth_lt_of_mem_ancestors ((harranged.mem_descendants_iff hid).1 hbelow)

theorem depth_le_of_mem_descendants {id below : NodeId} (hbelow : below ∈ tree.descendants id) :
    tree.depth below ≤ tree.depth id + tree.height id := by
  have hlevel : tree.depth below - tree.depth id ≤ tree.height id :=
    List.le_max?_getD_of_mem (List.mem_map_of_mem hbelow)
  exact Nat.sub_le_iff_le_add'.1 hlevel

/-! ### Searching down to a limit -/

theorem firstWithin?_one (kind : String) (id : NodeId) :
    tree.firstWithin? kind 1 id = tree.firstChild? id kind := by
  rw [firstWithin?, firstChild?, ← List.findSome?_guard]
  rfl

section Arranged

variable (harranged : tree.Arranged) {id : NodeId} (hid : id < tree.size) (kind : String)
  (limit : Nat)
include harranged hid

theorem Arranged.firstWithin?_eq_find? :
    tree.firstWithin? kind limit id = (tree.descendants id).find? fun below =>
      tree.kind below = kind ∧ tree.depth below ≤ tree.depth id + limit := by
  induction limit generalizing id with
  | zero =>
      symm
      rw [firstWithin?, List.find?_eq_none]
      intro below hbelow hshallow
      have hdeeper := harranged.depth_lt_of_mem_descendants hid hbelow
      have hle := (of_decide_eq_true hshallow).2
      omega
  | succ limit ih =>
      -- Below a child there is one level less to go, and the child itself is not too deep.
      rw [firstWithin?, harranged.descendants_eq_flatMap hid, List.find?_flatMap]
      apply findSome?_congr
      intro child hchild
      have hparent := harranged.mem_children_iff.1 hchild
      have hbound : tree.depth id + (limit + 1) = tree.depth child + limit := by
        rw [harranged.depth_of_eq_some hparent]
        omega
      rw [hbound, ih (lt_size_of_parent? hparent), List.find?_cons]
      by_cases hkind : tree.kind child = kind <;> simp [hkind]

theorem Arranged.firstWithin?_eq_none_iff :
    tree.firstWithin? kind limit id = none ↔
      ∀ below ∈ tree.descendants id, tree.kind below = kind →
        tree.depth id + limit < tree.depth below := by
  rw [harranged.firstWithin?_eq_find? hid, List.find?_eq_none]
  simp

/-- A limit of as many levels as there are is none. -/
theorem Arranged.firstWithin?_of_height_le (hlimit : tree.height id ≤ limit) :
    tree.firstWithin? kind limit id = tree.nthBelow? id kind 0 := by
  rw [harranged.firstWithin?_eq_find? hid, nthBelow?, ← List.head?_eq_getElem?, List.head?_filter]
  apply List.find?_congr
  intro below hbelow
  have hle : tree.depth below ≤ tree.depth id + limit :=
    calc tree.depth below
        ≤ tree.depth id + tree.height id := depth_le_of_mem_descendants hbelow
      _ ≤ tree.depth id + limit := Nat.add_le_add_left hlimit _
  rw [Bool.eq_iff_iff, decide_eq_true_iff, beq_iff_eq]
  exact and_iff_left hle

end Arranged

/-- **The search down to a limit is a scan.** It finds the first node of the kind among those below
the node, in their order, that is no more levels deeper than the limit, and nothing only if there is
none. A limit of at least the height is no limit, and with a limit of one only children count. -/
theorem firstWithin?_scans (hmade : tree.WellMade) {id : NodeId} (hid : id < tree.size)
    (kind : String) :
    (∀ limit, tree.firstWithin? kind limit id = (tree.descendants id).find? fun below =>
        tree.kind below = kind ∧ tree.depth below ≤ tree.depth id + limit) ∧
      (∀ limit, tree.firstWithin? kind limit id = none ↔
        ∀ below ∈ tree.descendants id, tree.kind below = kind →
          tree.depth id + limit < tree.depth below) ∧
      (∀ limit, tree.height id ≤ limit →
        tree.firstWithin? kind limit id = tree.nthBelow? id kind 0) ∧
      tree.firstWithin? kind 1 id = tree.firstChild? id kind := by
  have harranged := hmade.arranged
  exact ⟨harranged.firstWithin?_eq_find? hid kind, harranged.firstWithin?_eq_none_iff hid kind,
    harranged.firstWithin?_of_height_le hid kind, firstWithin?_one kind id⟩

/-- An identifier three levels deep, and one right below the root behind it. -/
def steepCalls : List Draft.Call :=
  [.opening "config_file" ⟨0, 6⟩, .opening "block" ⟨0, 3⟩, .opening "body" ⟨1, 2⟩,
    .leaf "identifier" ⟨1, 2⟩, .closing, .closing, .leaf "identifier" ⟨4, 5⟩, .closing]

def steepTree : Tree :=
  (steepCalls.foldl Draft.call (.new "{a}\nb\n".toList)).tree

theorem firstWithin?_steep :
    steepTree.WellMade ∧ root < steepTree.size ∧
      steepTree.firstWithin? "identifier" 2 root = some 4 ∧
      steepTree.firstWithin? "identifier" 3 root = some 3 ∧ steepTree.height root ≤ 3 ∧
      steepTree.firstWithin? "identifier" 3 root = steepTree.nthBelow? root "identifier" 0 ∧
      steepTree.firstWithin? "identifier" 1 root = steepTree.firstChild? root "identifier" ∧
      steepTree.firstWithin? "string_lit" 3 root = none := by
  have hbuild : Tree.build "{a}\nb\n".toList steepCalls = .ok steepTree := rfl
  have hmade : steepTree.WellMade := .built hbuild
  have hroot : root < steepTree.size := by decide
  have hheight : steepTree.height root ≤ 3 := by decide
  obtain ⟨hscan, -, hwhole, hchild⟩ := firstWithin?_scans hmade hroot "identifier"
  have hnone : ∀ below ∈ steepTree.descendants root, steepTree.kind below ≠ "string_lit" := by
    decide
  refine ⟨hmade, hroot, ?_, ?_, hheight, hwhole 3 hheight, hchild, ?_⟩
  · rw [hscan 2]
    decide
  · rw [hscan 3]
    decide
  · rw [(firstWithin?_scans hmade hroot "string_lit").2.1 3]
    exact fun below hbelow hkind => absurd hkind (hnone below hbelow)

end HclEdit.Tree
