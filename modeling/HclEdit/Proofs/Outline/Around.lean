import HclEdit.Proofs.Outline.Listed
import HclEdit.Proofs.Tree.Depth
import HclEdit.Proofs.Tree.Innermost

/-!
# The definition around an offset

The nodes around an offset are the innermost one and its ancestors, with the root as the last. They
get less deep on the way up, so the first definition there is the deepest one. An item of an outline
stands for a definition, and the search from within its span does not leave it.
-/

namespace HclEdit

namespace Tree

/-- A node around an offset. The root counts as being around every offset. -/
def Surrounds (tree : Tree) (offset : Nat) (id : NodeId) : Prop :=
  id < tree.size ∧ (id = root ∨ (tree.span id).Covers offset)

instance (tree : Tree) (offset : Nat) (id : NodeId) : Decidable (tree.Surrounds offset id) :=
  inferInstanceAs (Decidable (_ ∧ _))

def DefinesAround (tree : Tree) (offset : Nat) (id : NodeId) : Prop :=
  tree.Surrounds offset id ∧ (tree.definition? id).isSome

instance (tree : Tree) (offset : Nat) (id : NodeId) : Decidable (tree.DefinesAround offset id) :=
  inferInstanceAs (Decidable (_ ∧ _))

variable {tree : Tree} {offset : Nat}

/-! ### The way up -/

/-- What follows a node on the way up from another are its own ancestors. -/
theorem Linked.ancestors_of_eq_append (hlinked : tree.Linked) {bottom id : NodeId}
    {front back : List NodeId}
    (hsplit : bottom :: tree.ancestors bottom = front ++ id :: back) :
    back = tree.ancestors id := by
  induction front generalizing bottom with
  | nil =>
      obtain ⟨rfl, rfl⟩ := List.cons.inj hsplit
      rfl
  | cons first front ih =>
      obtain ⟨-, hrest⟩ := List.cons.inj hsplit
      cases hparent : tree.parent? bottom with
      | none => simp [ancestors_of_eq_none hparent] at hrest
      | some parent =>
          rw [hlinked.ancestors_of_eq_some hparent] at hrest
          exact ih hrest

theorem Nested.mem_cons_ancestors_innermostAt (hnested : tree.Nested) (hsize : 0 < tree.size)
    {id : NodeId} :
    id ∈ tree.innermostAt offset :: tree.ancestors (tree.innermostAt offset) ↔
      tree.Surrounds offset id := by
  have hinnermost := (hnested.below_descend offset tree.size root).lt_size hsize
  rw [List.mem_cons, ← hnested.below_iff_eq_or_mem_ancestors]
  constructor
  · intro hbelow
    have hle := hnested.le_of_below hbelow
    refine ⟨Nat.lt_of_le_of_lt hle hinnermost, ?_⟩
    by_cases hroot : id = root
    · exact .inl hroot
    -- The search has left the root, so the node at which it ends covers the offset.
    · have hleft : tree.innermostAt offset ≠ root := by
        intro h
        rw [h] at hle
        exact hroot (Nat.le_zero.1 hle)
      have hencloses := Encloses.of_innermostAt_ne_root hnested.toLinked hsize hleft
      exact .inr (hnested.covers_of_below hbelow hencloses.2)
  · rintro ⟨hid, rfl | hcovers⟩
    · exact hnested.below_root hnested.rooted hinnermost
    · exact hnested.below_innermostAt hid hcovers

/-! ### The first definition on it -/

section Nested

variable (hnested : tree.Nested) (hsize : 0 < tree.size)
include hnested hsize

theorem Nested.definitionAround?_eq_none_iff :
    tree.definitionAround? offset = none ↔ ∀ id, ¬ tree.DefinesAround offset id := by
  rw [definitionAround?, List.find?_eq_none]
  constructor
  · rintro hnone id ⟨haround, hdefinition⟩
    exact hnone id ((hnested.mem_cons_ancestors_innermostAt hsize).2 haround) hdefinition
  · intro hnone id hmem hdefinition
    exact hnone id ⟨(hnested.mem_cons_ancestors_innermostAt hsize).1 hmem, hdefinition⟩

/-- Every other definition around the offset is an ancestor of the one that is found. -/
theorem Nested.definesAround_of_definitionAround? {id : NodeId}
    (hfind : tree.definitionAround? offset = some id) :
    tree.DefinesAround offset id ∧
      ∀ other, tree.DefinesAround offset other → other = id ∨ other ∈ tree.ancestors id := by
  obtain ⟨hdefinition, front, back, hsplit, hfront⟩ := List.find?_eq_some_iff_append.1 hfind
  have hmem : id ∈ tree.innermostAt offset :: tree.ancestors (tree.innermostAt offset) := by
    rw [hsplit]
    exact List.mem_append_right front List.mem_cons_self
  refine ⟨⟨(hnested.mem_cons_ancestors_innermostAt hsize).1 hmem, hdefinition⟩, ?_⟩
  rintro other ⟨haround, hotherDefinition⟩
  have hother := (hnested.mem_cons_ancestors_innermostAt hsize).2 haround
  rw [hsplit, List.mem_append, List.mem_cons] at hother
  rcases hother with hother | rfl | hother
  · have hfails := hfront other hother
    simp [hotherDefinition] at hfails
  · exact .inl rfl
  · rw [← hnested.ancestors_of_eq_append hsplit]
    exact .inr hother

theorem Nested.exists_definitionAround? {id : NodeId} (hid : tree.DefinesAround offset id) :
    ∃ found, tree.definitionAround? offset = some found ∧ tree.DefinesAround offset found ∧
      (id = found ∨ id ∈ tree.ancestors found) := by
  cases hfind : tree.definitionAround? offset with
  | none => exact absurd hid ((hnested.definitionAround?_eq_none_iff hsize).1 hfind id)
  | some found =>
      obtain ⟨hfound, habove⟩ := hnested.definesAround_of_definitionAround? hsize hfind
      exact ⟨found, rfl, hfound, habove id hid⟩

theorem Nested.definitionAround?_eq_some_iff {id : NodeId} :
    tree.definitionAround? offset = some id ↔
      tree.DefinesAround offset id ∧
        ∀ other, tree.DefinesAround offset other → other ≠ id →
          tree.depth other < tree.depth id := by
  constructor
  · intro hfind
    obtain ⟨hid, habove⟩ := hnested.definesAround_of_definitionAround? hsize hfind
    refine ⟨hid, fun other hother hne => ?_⟩
    exact hnested.depth_lt_of_mem_ancestors ((habove other hother).resolve_left hne)
  · rintro ⟨hid, hdeepest⟩
    obtain ⟨found, hfind, hfound, rfl | habove⟩ := hnested.exists_definitionAround? hsize hid
    · exact hfind
    · have hlt := hnested.depth_lt_of_mem_ancestors habove
      by_cases hne : found = id
      · rw [hfind, hne]
      · exact absurd (hdeepest found hfound hne) (Nat.lt_asymm hlt)

end Nested

end Tree

/-! ### From within an item -/

namespace OutlineItem

mutual

/-- An item and all items below it, from top to bottom. -/
def entries : OutlineItem → List OutlineItem
  | ⟨kind, name, line, span, children⟩ =>
      ⟨kind, name, line, span, children⟩ :: entriesOfAll children

def entriesOfAll : List OutlineItem → List OutlineItem
  | [] => []
  | item :: rest => item.entries ++ entriesOfAll rest

end

end OutlineItem

namespace Tree

/-- The definition of which an item gives the kind, the name, the line and the span. -/
def Tells (tree : Tree) (item : OutlineItem) (id : NodeId) : Prop :=
  tree.definition? id = some item.kind ∧ tree.name? id = some item.name ∧
    item.line = tree.startLine id + 1 ∧ item.span = tree.span id

variable {tree : Tree}

mutual

theorem StandsFor.tells_entries : ∀ {item : OutlineItem} {origin : Origin}
    (around : Option NodeId), tree.StandsFor item origin →
      List.Forall₂ tree.Tells item.entries ((origin.links around).map Prod.fst)
  | _, .node id _, _, .intro hkind hname hline hbelow =>
      have hstart := hline.trans (congrArg (· + 1) (tree.startLine_eq_count id).symm)
      .cons ⟨hkind, hname, hstart, rfl⟩ (StandsFor.tells_entriesOfAll (some id) hbelow)

theorem StandsFor.tells_entriesOfAll : ∀ {items : List OutlineItem} {origins : List Origin}
    (around : Option NodeId), List.Forall₂ tree.StandsFor items origins →
      List.Forall₂ tree.Tells (OutlineItem.entriesOfAll items)
        ((Origin.linksOfAll around origins).map Prod.fst)
  | [], [], _, _ => .nil
  | _ :: _, _ :: _, around, .cons hitem hrest => by
      rw [OutlineItem.entriesOfAll, Origin.linksOfAll, List.map_append]
      exact List.rel_append (StandsFor.tells_entries around hitem)
        (StandsFor.tells_entriesOfAll around hrest)

end

theorem Outlines.tells {around : Option NodeId} {items : List OutlineItem} {ids : List NodeId}
    (houtlines : tree.Outlines around items ids) :
    List.Forall₂ tree.Tells (OutlineItem.entriesOfAll items) ids := by
  obtain ⟨origins, hstand, hlinks⟩ := houtlines
  have htells := StandsFor.tells_entriesOfAll around hstand
  rw [hlinks, List.map_map] at htells
  simpa [Function.comp_def] using htells

theorem Nested.exists_definitionAround?_of_tells (hnested : tree.Nested) {item : OutlineItem}
    {id : NodeId} {offset : Nat} (hid : id < tree.size) (htells : tree.Tells item id)
    (hcovers : item.span.Covers offset) :
    ∃ found, tree.definitionAround? offset = some found ∧ (tree.definition? found).isSome ∧
      (id = found ∨ id ∈ tree.ancestors found) := by
  obtain ⟨hkind, -, -, hspan⟩ := htells
  rw [hspan] at hcovers
  have hdefines : tree.DefinesAround offset id := ⟨⟨hid, .inr hcovers⟩, by simp [hkind]⟩
  obtain ⟨found, hfind, hfound, habove⟩ :=
    hnested.exists_definitionAround? (Nat.zero_lt_of_lt hid) hdefines
  exact ⟨found, hfind, hfound.2, habove⟩

/-- **The definition around an offset is the innermost one.** In a built tree it is the deepest of
all attributes and blocks around the offset, and there is none only if none is around it. Each item
of the outline, at any level, stands for a listed node, and from within its span the search finds
that node or a definition below it. -/
theorem definitionAround?_innermost {source : Text} {calls : List Draft.Call} {tree : Tree}
    (hbuild : Tree.build source calls = .ok tree) :
    (∀ offset id, tree.definitionAround? offset = some id ↔
      tree.DefinesAround offset id ∧
        ∀ other, tree.DefinesAround offset other → other ≠ id →
          tree.depth other < tree.depth id) ∧
    (∀ offset, tree.definitionAround? offset = none ↔ ∀ id, ¬ tree.DefinesAround offset id) ∧
    List.Forall₂
      (fun item id => tree.Tells item id ∧
        ∀ offset, item.span.Covers offset →
          ∃ found, tree.definitionAround? offset = some found ∧
            (tree.definition? found).isSome ∧ (id = found ∨ id ∈ tree.ancestors found))
      (OutlineItem.entriesOfAll tree.outline)
      ((List.range tree.size).filter fun id => tree.IsListed id) := by
  have hnested := nested_build hbuild
  have harranged := arranged_build hbuild
  have hsize : 0 < tree.size := harranged.nonempty
  refine ⟨fun offset id => hnested.definitionAround?_eq_some_iff hsize,
    fun offset => hnested.definitionAround?_eq_none_iff hsize, ?_⟩
  have htells := harranged.outlines_outline.tells
  rw [List.forall₂_iff_zip] at htells ⊢
  refine ⟨htells.1, fun {item id} hmem => ⟨htells.2 hmem, fun offset hcovers => ?_⟩⟩
  have hid : id < tree.size :=
    List.mem_range.1 (List.mem_of_mem_filter (List.of_mem_zip hmem).2)
  exact hnested.exists_definitionAround?_of_tells hid (htells.2 hmem) hcovers

def damagedTree : Tree :=
  (damagedCalls.foldl Draft.call (.new "a{={b=1}c={d=1}}".toList)).tree

/-- Around the value of `d` stands the attribute `d`, which the outline does not list. -/
theorem definitionAround?_damaged :
    Tree.build "a{={b=1}c={d=1}}".toList damagedCalls = .ok damagedTree ∧
      damagedTree.definitionAround? 13 = some 8 ∧ damagedTree.definitionAround? 16 = none ∧
      List.Forall₂
        (fun item id => damagedTree.Tells item id ∧
          ∀ offset, item.span.Covers offset →
            ∃ found, damagedTree.definitionAround? offset = some found ∧
              (damagedTree.definition? found).isSome ∧
              (id = found ∨ id ∈ damagedTree.ancestors found))
        (OutlineItem.entriesOfAll damagedTree.outline) [1, 4, 6] := by
  have hbuild : Tree.build "a{={b=1}c={d=1}}".toList damagedCalls = .ok damagedTree := rfl
  have hdeepest : ∀ other < damagedTree.size, damagedTree.DefinesAround 13 other → other ≠ 8 →
      damagedTree.depth other < damagedTree.depth 8 := by decide
  have hnone : ∀ id < damagedTree.size, ¬ damagedTree.DefinesAround 16 id := by decide
  obtain ⟨hinnermost, hnowhere, hitems⟩ := definitionAround?_innermost hbuild
  refine ⟨hbuild, (hinnermost 13 8).2 ⟨by decide, fun other hother => ?_⟩,
    (hnowhere 16).2 fun id hid => ?_, hitems⟩
  · exact hdeepest other hother.1.1 hother
  · exact hnone id hid.1.1 hid

end Tree

end HclEdit
