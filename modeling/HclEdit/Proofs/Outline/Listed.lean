import HclEdit.Outline
import HclEdit.Proofs.Lines.Points
import HclEdit.Proofs.Tree.Descendants
import Mathlib.Data.List.Forall2

/-!
# What an outline lists

Every item of an outline stands for a node. Read from top to bottom, the items stand for the named
definitions that no named attribute holds, in the order of their ids, and an item is put right below
the one of the innermost named definition around its node.
-/

namespace HclEdit

/-- The node that an item stands for, with those of the items below it. -/
inductive Origin where
  | node (id : NodeId) (below : List Origin)

namespace Origin

mutual

/-- The nodes from top to bottom, each with the one that it is put right below. -/
def links (around : Option NodeId) : Origin → List (NodeId × Option NodeId)
  | .node id below => (id, around) :: linksOfAll (some id) below

def linksOfAll (around : Option NodeId) : List Origin → List (NodeId × Option NodeId)
  | [] => []
  | origin :: rest => origin.links around ++ linksOfAll around rest

end

theorem linksOfAll_append (around : Option NodeId) (origins others : List Origin) :
    linksOfAll around (origins ++ others) =
      linksOfAll around origins ++ linksOfAll around others := by
  induction origins with
  | nil => rfl
  | cons origin rest ih =>
      rw [List.cons_append, linksOfAll, linksOfAll, ih, List.append_assoc]

end Origin

namespace Tree

/-- An item tells about the node that it stands for, and so do the items below it. Its line is
counted by the line feeds before the node. -/
inductive StandsFor (tree : Tree) : OutlineItem → Origin → Prop where
  | intro {id : NodeId} {kind : Definition} {name : Text} {line : Nat}
      {children : List OutlineItem} {below : List Origin}
      (hkind : tree.definition? id = some kind) (hname : tree.name? id = some name)
      (hline : line =
        ((Text.encode tree.source).take (tree.span id).start).count Text.newline + 1)
      (hbelow : List.Forall₂ (StandsFor tree) children below) :
      StandsFor tree ⟨kind, name, line, tree.span id, children⟩ (.node id below)

def IsNamed (tree : Tree) (id : NodeId) : Prop :=
  id ≠ root ∧ (tree.name? id).isSome

instance (tree : Tree) (id : NodeId) : Decidable (tree.IsNamed id) :=
  inferInstanceAs (Decidable (_ ∧ _))

/-- Nothing is listed below a named attribute. -/
def IsOpen (tree : Tree) (id : NodeId) : Prop :=
  tree.IsNamed id → tree.definition? id ≠ some .attr

instance (tree : Tree) (id : NodeId) : Decidable (tree.IsOpen id) :=
  inferInstanceAs (Decidable (_ → _))

def IsListed (tree : Tree) (id : NodeId) : Prop :=
  tree.IsNamed id ∧ ∀ above ∈ tree.ancestors id, tree.IsOpen above

instance (tree : Tree) (id : NodeId) : Decidable (tree.IsListed id) :=
  inferInstanceAs (Decidable (_ ∧ _))

/-- The innermost named definition around a node. -/
def enclosing? (tree : Tree) (id : NodeId) : Option NodeId :=
  (tree.ancestors id).find? fun above => tree.IsNamed above

/-- Items that stand for some nodes, from top to bottom. They are put below the item of one node or
at the top, and every other item below that of the innermost named definition around its node. -/
def Outlines (tree : Tree) (around : Option NodeId) (items : List OutlineItem)
    (ids : List NodeId) : Prop :=
  ∃ origins, List.Forall₂ tree.StandsFor items origins ∧
    Origin.linksOfAll around origins = ids.map fun id => (id, tree.enclosing? id)

variable {tree : Tree}

theorem startLine_eq_count (tree : Tree) (id : NodeId) :
    tree.startLine id =
      ((Text.encode tree.source).take (tree.span id).start).count Text.newline := by
  rw [startLine, tree.lines_eq, LineTable.rowOf_eq_count]

theorem Outlines.nil (around : Option NodeId) : tree.Outlines around [] [] :=
  ⟨[], .nil, rfl⟩

theorem Outlines.append {around : Option NodeId} {items others : List OutlineItem}
    {ids further : List NodeId} (hitems : tree.Outlines around items ids)
    (hothers : tree.Outlines around others further) :
    tree.Outlines around (items ++ others) (ids ++ further) := by
  obtain ⟨origins, hstand, hlinks⟩ := hitems
  obtain ⟨more, hstandMore, hlinksMore⟩ := hothers
  refine ⟨origins ++ more, List.rel_append hstand hstandMore, ?_⟩
  rw [Origin.linksOfAll_append, hlinks, hlinksMore, List.map_append]

theorem Outlines.flatMap {around : Option NodeId} {items : NodeId → List OutlineItem}
    {below : NodeId → List NodeId} {ids : List NodeId}
    (hids : ∀ id ∈ ids, tree.Outlines around (items id) (below id)) :
    tree.Outlines around (ids.flatMap items) (ids.flatMap below) := by
  induction ids with
  | nil => exact .nil around
  | cons id rest ih =>
      rw [List.forall_mem_cons] at hids
      exact hids.1.append (ih hids.2)

theorem Outlines.cons {id : NodeId} {kind : Definition} {name : Text}
    {children : List OutlineItem} {below : List NodeId} (hkind : tree.definition? id = some kind)
    (hname : tree.name? id = some name) (hbelow : tree.Outlines (some id) children below) :
    tree.Outlines (tree.enclosing? id)
      [⟨kind, name, tree.startLine id + 1, tree.span id, children⟩] (id :: below) := by
  obtain ⟨origins, hstand, hlinks⟩ := hbelow
  have hline := congrArg (· + 1) (tree.startLine_eq_count id)
  refine ⟨[.node id origins], .cons (.intro hkind hname hline hstand) .nil, ?_⟩
  rw [Origin.linksOfAll, Origin.links, hlinks, Origin.linksOfAll, List.append_nil, List.map_cons]

/-! ### From a node to its children -/

theorem definition?_of_name? {id : NodeId} {name : Text} (hname : tree.name? id = some name) :
    ∃ kind, tree.definition? id = some kind := by
  unfold name? at hname
  split at hname
  · exact absurd hname nofun
  · next hkind => exact ⟨_, hkind⟩
  · next hkind => exact ⟨_, hkind⟩

/-- The items that a child gives to its parent's. -/
inductive Gives (tree : Tree) (depth : Nat) (id : NodeId) : List OutlineItem → Prop where
  | unnamed (hname : tree.name? id = none) : Gives tree depth id (tree.itemsBelow depth id)
  | attr {name : Text} (hkind : tree.definition? id = some .attr)
      (hname : tree.name? id = some name) :
      Gives tree depth id [⟨.attr, name, tree.startLine id + 1, tree.span id, []⟩]
  | block {name : Text} (hkind : tree.definition? id = some .block)
      (hname : tree.name? id = some name) :
      Gives tree depth id
        [⟨.block, name, tree.startLine id + 1, tree.span id, tree.itemsBelow depth id⟩]

theorem itemsBelow_succ (tree : Tree) (depth : Nat) (id : NodeId) :
    ∃ items, tree.itemsBelow (depth + 1) id = (tree.children id).flatMap items ∧
      ∀ child, tree.Gives depth child (items child) := by
  refine ⟨_, rfl, fun child => ?_⟩
  cases hname : tree.name? child with
  | none => cases tree.definition? child <;> exact .unnamed hname
  | some name =>
      obtain ⟨kind, hkind⟩ := definition?_of_name? hname
      rw [hkind]
      cases kind with
      | attr => exact .attr hkind hname
      | block => exact .block hkind hname

section Child

variable (hlinked : tree.Linked) {id child : NodeId} (hparent : tree.parent? child = some id)
include hlinked hparent

theorem Linked.isNamed_child_iff : tree.IsNamed child ↔ (tree.name? child).isSome :=
  and_iff_right (hlinked.ne_root_of_parent? hparent)

theorem Linked.enclosing?_child :
    tree.enclosing? child = if tree.IsNamed id then some id else tree.enclosing? id := by
  rw [enclosing?, hlinked.ancestors_of_eq_some hparent, List.find?_cons]
  by_cases hnamed : tree.IsNamed id
  · simp [hnamed]
  · simp [hnamed, enclosing?]

theorem Linked.forall_ancestors_child :
    (∀ above ∈ tree.ancestors child, tree.IsOpen above) ↔
      tree.IsOpen id ∧ ∀ above ∈ tree.ancestors id, tree.IsOpen above := by
  rw [hlinked.ancestors_of_eq_some hparent, List.forall_mem_cons]

/-- What is below a node without a name is listed as if it stood in its place. -/
theorem Linked.isListed_child_of_unnamed (hname : tree.name? id = none) :
    (tree.IsListed child ↔
        (tree.name? child).isSome ∧ ∀ above ∈ tree.ancestors id, tree.IsOpen above) ∧
      tree.enclosing? child = tree.enclosing? id := by
  have hnamed : ¬ tree.IsNamed id := by simp [IsNamed, hname]
  have hopen : tree.IsOpen id := fun h => absurd h hnamed
  constructor
  · rw [IsListed, hlinked.isNamed_child_iff hparent, hlinked.forall_ancestors_child hparent,
      and_iff_right hopen]
  · rw [hlinked.enclosing?_child hparent, if_neg hnamed]

end Child

/-! ### The items below a node -/

section Below

variable (harranged : tree.Arranged)
include harranged

theorem Arranged.filter_isListed_of_attr {id : NodeId} (hid : id < tree.size)
    (hnamed : tree.IsNamed id) (hattr : tree.definition? id = some .attr) :
    (tree.descendants id).filter (fun other => tree.IsListed other) = [] := by
  refine List.filter_eq_nil_iff.2 fun other hother => ?_
  rw [decide_eq_true_iff]
  intro hlisted
  exact hlisted.2 id ((harranged.mem_descendants_iff hid).1 hother) hnamed hattr

/-- What a child gives stands for what is listed of its subtree, if this holds below it. -/
theorem Arranged.outlines_of_gives {depth : Nat} {id child : NodeId} {items : List OutlineItem}
    (hgives : tree.Gives depth child items) (hparent : tree.parent? child = some id)
    (habove : ∀ above ∈ tree.ancestors child, tree.IsOpen above)
    (hbelow : tree.IsOpen child →
      tree.Outlines (if tree.IsNamed child then some child else tree.enclosing? child)
        (tree.itemsBelow depth child)
        ((tree.descendants child).filter fun other => tree.IsListed other)) :
    tree.Outlines (tree.enclosing? child) items
      ((child :: tree.descendants child).filter fun other => tree.IsListed other) := by
  have hisNamed := harranged.isNamed_child_iff hparent
  cases hgives with
  -- What is around a child without a name is around everything below it.
  | unnamed hname =>
      have hnamed : ¬ tree.IsNamed child := by simp [hisNamed, hname]
      have hlisted : ¬ tree.IsListed child := fun hlisted => hnamed hlisted.1
      rw [List.filter_cons_of_neg (by simpa using hlisted)]
      rw [if_neg hnamed] at hbelow
      exact hbelow fun h => absurd h hnamed
  | attr hkind hname =>
      have hnamed : tree.IsNamed child := by simp [hisNamed, hname]
      have hlisted : tree.IsListed child := ⟨hnamed, habove⟩
      rw [List.filter_cons_of_pos (by simpa using hlisted),
        harranged.filter_isListed_of_attr (lt_size_of_parent? hparent) hnamed hkind]
      exact .cons hkind hname (.nil _)
  | block hkind hname =>
      have hnamed : tree.IsNamed child := by simp [hisNamed, hname]
      have hlisted : tree.IsListed child := ⟨hnamed, habove⟩
      rw [List.filter_cons_of_pos (by simpa using hlisted)]
      rw [if_pos hnamed] at hbelow
      exact .cons hkind hname (hbelow fun _ => by simp [hkind])

theorem Arranged.outlines_itemsBelow (depth : Nat) {id : NodeId} (hid : id < tree.size)
    (hdepth : tree.size ≤ id + depth) (hopen : tree.IsOpen id)
    (habove : ∀ above ∈ tree.ancestors id, tree.IsOpen above) :
    tree.Outlines (if tree.IsNamed id then some id else tree.enclosing? id)
      (tree.itemsBelow depth id)
      ((tree.descendants id).filter fun other => tree.IsListed other) := by
  -- The depth covers the ids from the node on, and every child has a greater one.
  induction depth generalizing id with
  | zero => exact absurd hid (Nat.not_lt_of_le hdepth)
  | succ depth ih =>
      obtain ⟨items, hitems, hgives⟩ := tree.itemsBelow_succ depth id
      rw [hitems, harranged.descendants_eq_flatMap hid, List.filter_flatMap]
      refine .flatMap fun child hchild => ?_
      have hparent := harranged.mem_children_iff.1 hchild
      have hchildDepth : tree.size ≤ child + depth :=
        calc tree.size
            ≤ id + (depth + 1) := hdepth
          _ = id + 1 + depth := Nat.add_right_comm id depth 1
          _ ≤ child + depth :=
            Nat.add_le_add_right (harranged.parent_lt child id hparent) depth
      have hchildAbove := (harranged.forall_ancestors_child hparent).2 ⟨hopen, habove⟩
      rw [← harranged.enclosing?_child hparent]
      apply harranged.outlines_of_gives (hgives child) hparent hchildAbove
      intro hchildOpen
      exact ih (lt_size_of_parent? hparent) hchildDepth hchildOpen hchildAbove

theorem Arranged.outlines_outline :
    tree.Outlines none tree.outline ((List.range tree.size).filter fun id => tree.IsListed id) := by
  have hroot : ¬ tree.IsNamed root := fun hnamed => hnamed.1 rfl
  have habove : tree.ancestors root = [] := ancestors_of_eq_none harranged.parent?_root
  have hsize : root < tree.size := harranged.nonempty
  have hitems := harranged.outlines_itemsBelow tree.size hsize (Nat.le_add_left _ _)
    (fun hnamed => absurd hnamed hroot) (by rw [habove]; exact nofun)
  rw [if_neg hroot, enclosing?, habove, harranged.descendants_eq_filter hsize,
    List.filter_filter] at hitems
  have hlisted : (List.range tree.size).filter (fun id => tree.IsListed id) =
      (List.range tree.size).filter fun id =>
        decide (tree.IsListed id) && decide (root ∈ tree.ancestors id) := by
    refine List.filter_congr fun id hid => ?_
    rw [← Bool.decide_and]
    refine decide_eq_decide.2 (and_iff_left_of_imp fun hlisted => ?_).symm
    exact harranged.mem_ancestors_iff_below.2
      ⟨harranged.below_root harranged.rooted (List.mem_range.1 hid), Ne.symm hlisted.1.1⟩
  rw [hlisted]
  exact hitems

/-- An item is never put below that of an attribute. -/
theorem Arranged.isListed_enclosing {id around : NodeId} (hlisted : tree.IsListed id)
    (henclosing : tree.enclosing? id = some around) :
    tree.IsListed around ∧ tree.definition? around = some .block := by
  have hnamed : tree.IsNamed around := by simpa using List.find?_some henclosing
  have hmem : around ∈ tree.ancestors id := List.mem_of_find?_eq_some henclosing
  have hopen := hlisted.2 around hmem hnamed
  refine ⟨⟨hnamed, fun above habove => hlisted.2 above ?_⟩, ?_⟩
  · rw [harranged.mem_ancestors_iff] at hmem ⊢
    obtain ⟨parent, hparent, hbelow⟩ := hmem
    exact ⟨parent, hparent, (harranged.mem_ancestors_iff_below.1 habove).1.trans hbelow⟩
  · obtain ⟨name, hname⟩ := Option.isSome_iff_exists.1 hnamed.2
    obtain ⟨kind, hkind⟩ := definition?_of_name? hname
    cases kind with
    | attr => exact absurd hkind hopen
    | block => exact hkind

end Below

end Tree

/-! ### Spans -/

/-- The items stand one behind the other, and what is below an item stands within it. -/
inductive OutlineItem.AreNested : List OutlineItem → Prop where
  | intro {items : List OutlineItem}
      (hordered : items.Pairwise fun earlier later => earlier.span.stop ≤ later.span.start)
      (hwithin : ∀ item ∈ items, ∀ child ∈ item.children, child.span.Within item.span)
      (hbelow : ∀ item ∈ items, AreNested item.children) : AreNested items

namespace OutlineItem

theorem areNested_nil : AreNested [] :=
  .intro .nil nofun nofun

theorem areNested_singleton {item : OutlineItem}
    (hwithin : ∀ child ∈ item.children, child.span.Within item.span)
    (hbelow : AreNested item.children) : AreNested [item] :=
  .intro (List.pairwise_singleton _ _) (by simpa using hwithin) (by simpa using hbelow)

theorem AreNested.flatMap {tree : Tree} {ids : List NodeId} {items : NodeId → List OutlineItem}
    (hids : ids.Pairwise fun earlier later =>
      (tree.span earlier).stop ≤ (tree.span later).start)
    (hitems : ∀ id ∈ ids, AreNested (items id))
    (hspan : ∀ id ∈ ids, ∀ item ∈ items id, item.span.Within (tree.span id)) :
    AreNested (ids.flatMap items) := by
  refine .intro (List.pairwise_flatMap.2 ⟨?_, ?_⟩) ?_ ?_
  · intro id hid
    cases hitems id hid with
    | intro hordered _ _ => exact hordered
  · refine hids.imp_of_mem fun {earlier later} hearlier hlater hle => ?_
    intro first hfirst last hlast
    calc first.span.stop
        ≤ (tree.span earlier).stop := (hspan earlier hearlier first hfirst).2
      _ ≤ (tree.span later).start := hle
      _ ≤ last.span.start := (hspan later hlater last hlast).1
  · intro item hitem
    obtain ⟨id, hid, hitem⟩ := List.mem_flatMap.1 hitem
    cases hitems id hid with
    | intro _ hwithin _ => exact hwithin item hitem
  · intro item hitem
    obtain ⟨id, hid, hitem⟩ := List.mem_flatMap.1 hitem
    cases hitems id hid with
    | intro _ _ hbelow => exact hbelow item hitem

end OutlineItem

namespace Tree

variable {tree : Tree}

theorem Nested.areNested_itemsBelow (hnested : tree.Nested) (depth : Nat) (id : NodeId) :
    OutlineItem.AreNested (tree.itemsBelow depth id) ∧
      ∀ item ∈ tree.itemsBelow depth id, item.span.Within (tree.span id) := by
  induction depth generalizing id with
  | zero => exact ⟨OutlineItem.areNested_nil, nofun⟩
  | succ depth ih =>
      obtain ⟨items, hitems, hgives⟩ := tree.itemsBelow_succ depth id
      have hchild : ∀ child, OutlineItem.AreNested (items child) ∧
          ∀ item ∈ items child, item.span.Within (tree.span child) := by
        intro child
        have hself : (tree.span child).Within (tree.span child) := ⟨Nat.le_refl _, Nat.le_refl _⟩
        generalize items child = given, hgives child = hgiven
        cases hgiven with
        | unnamed _ => exact ih child
        | attr _ _ =>
            refine ⟨OutlineItem.areNested_singleton nofun OutlineItem.areNested_nil, ?_⟩
            simpa using hself
        | block _ _ =>
            refine ⟨OutlineItem.areNested_singleton (ih child).2 (ih child).1, ?_⟩
            simpa using hself
      rw [hitems]
      refine ⟨.flatMap (hnested.ordered id) (fun child _ => (hchild child).1)
        (fun child _ => (hchild child).2), fun item hitem => ?_⟩
      obtain ⟨child, hmem, hitem⟩ := List.mem_flatMap.1 hitem
      have hitemSpan := (hchild child).2 item hitem
      have hchildSpan := hnested.within child id (hnested.mem_children_iff.1 hmem)
      exact ⟨Nat.le_trans hchildSpan.1 hitemSpan.1, Nat.le_trans hitemSpan.2 hchildSpan.2⟩

/-- **An outline lists the named definitions that no named attribute holds.** Each is listed once,
in the order of the ids, and right below the innermost named definition around it, which is a block.
A definition without a name takes nothing with it. Where the spans of a tree are nested, so are
those of its outline. -/
theorem outline_lists_definitions (hmade : tree.WellMade) :
    tree.Outlines none tree.outline ((List.range tree.size).filter fun id => tree.IsListed id) ∧
      (∀ id around, tree.IsListed id → tree.enclosing? id = some around →
        tree.IsListed around ∧ tree.definition? around = some .block) ∧
      (∀ id child, tree.name? id = none → tree.parent? child = some id →
        (tree.IsListed child ↔
            (tree.name? child).isSome ∧ ∀ above ∈ tree.ancestors id, tree.IsOpen above) ∧
          tree.enclosing? child = tree.enclosing? id) ∧
      (tree.Nested → OutlineItem.AreNested tree.outline) := by
  have harranged := hmade.arranged
  refine ⟨harranged.outlines_outline, ?enclosing, ?unnamed, ?nested⟩
  case enclosing => exact fun id around => harranged.isListed_enclosing
  case unnamed =>
    exact fun id child hname hparent => harranged.isListed_child_of_unnamed hparent hname
  case nested => exact fun hnested => (hnested.areNested_itemsBelow tree.size root).1

/-- A block of two attributes that hold another one each, the first of them without a name. -/
def damagedCalls : List Draft.Call :=
  [ .opening "config_file" ⟨0, 16⟩, .opening "block" ⟨0, 16⟩, .leaf "identifier" ⟨0, 1⟩,
    .opening "attribute" ⟨2, 8⟩, .opening "attribute" ⟨4, 7⟩, .leaf "identifier" ⟨4, 5⟩,
    .closing, .closing,
    .opening "attribute" ⟨8, 15⟩, .leaf "identifier" ⟨8, 9⟩, .opening "attribute" ⟨11, 14⟩,
    .leaf "identifier" ⟨11, 12⟩, .closing, .closing,
    .closing, .closing ]

theorem outline_damaged :
    ∃ tree, Tree.build "a\x7b=\nb=1\x7dc=\x7bd=1\x7d\x7d".toList damagedCalls = .ok tree ∧
      tree.WellMade ∧
      tree.Outlines none tree.outline [1, 4, 6] ∧
      [1, 4, 6].map tree.enclosing? = [none, some 1, some 1] ∧
      tree.outline.map (fun item => (item.line, item.children.map OutlineItem.line)) =
        [(1, [2, 2])] ∧
      tree.definition? 1 = some .block ∧ OutlineItem.AreNested tree.outline := by
  have hbuild : Tree.build "a\x7b=\nb=1\x7dc=\x7bd=1\x7d\x7d".toList damagedCalls = .ok _ := rfl
  obtain ⟨houtlines, hblock, -, hnested⟩ := outline_lists_definitions (.built hbuild)
  refine ⟨_, hbuild, .built hbuild, ?_, rfl, ?_, ?_, hnested (nested_build hbuild)⟩
  · exact houtlines
  · decide +kernel
  · exact (hblock 4 1 (by decide) rfl).2

end Tree

end HclEdit
