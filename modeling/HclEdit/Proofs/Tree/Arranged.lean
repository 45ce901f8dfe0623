import HclEdit.Proofs.Tree.Nested

/-!
# Nodes in the order of their first visit

While nodes are laid out, everything behind an entered node lies below it, and once it has been left
nothing more comes below it. Every step keeps this, as well as the positions of the children. The
ends of the subtrees, which are told at last, are therefore the places where the nodes below a node
end, in every tree made by a parse in preorder or built call by call.
-/

namespace HclEdit

namespace Layout

structure Arranged (layout : Layout) : Prop extends layout.Linked where
  path_sorted : layout.path.Pairwise (· > ·)
  path_closed : ∀ id ∈ layout.path, ∀ parent, (layout.node id).parent = some parent →
    parent ∈ layout.path
  placed : ∀ id parent, (layout.node id).parent = some parent →
    (layout.node parent).children[(layout.node id).position]? = some id
  entered : ∀ id ∈ layout.path, ∀ other, id < other → other < layout.nodes.size →
    ∃ parent, (layout.node other).parent = some parent ∧ id ≤ parent
  between : ∀ id child, (layout.node child).parent = some id →
    ∀ other, id < other → other < child →
      ∃ parent, (layout.node other).parent = some parent ∧ id ≤ parent

theorem arranged_empty : Layout.empty.Arranged where
  toLinked := linked_empty
  path_sorted := .nil
  path_closed := nofun
  placed := nofun
  entered := nofun
  between := nofun

section Add

variable {layout : Layout} (kind : String) (span : Span) (named : Bool)

theorem position_add_self {parent : NodeId} (hparent : layout.path.head? = some parent) :
    ((layout.add kind span named).node layout.nodes.size).position =
      (layout.node parent).children.length := by
  unfold add node Tree.nodeAt
  rw [hparent, Array.getElem?_push, Array.size_modify, if_pos rfl]
  rfl

theorem position_add_of_lt {id : NodeId} (hid : id < layout.nodes.size) :
    ((layout.add kind span named).node id).position = (layout.node id).position := by
  rw [node_add_of_lt kind span named hid]
  split <;> rfl

/-- A node with a parent was there before, or it is the new one below the innermost entered. -/
theorem parent_add_cases {id parent : NodeId}
    (hparent : ((layout.add kind span named).node id).parent = some parent) :
    (id < layout.nodes.size ∧ (layout.node id).parent = some parent) ∨
      (id = layout.nodes.size ∧ layout.path.head? = some parent) := by
  have hlt := lt_size_of_parent hparent
  rw [size_add] at hlt
  rcases Nat.lt_succ_iff_lt_or_eq.1 hlt with hid | rfl
  · rw [parent_add_of_lt kind span named hid] at hparent
    exact .inl ⟨hid, hparent⟩
  · rw [parent_add_self] at hparent
    exact .inr ⟨rfl, hparent⟩

variable (harranged : layout.Arranged)
include harranged

omit kind span named in
/-- The innermost entered node has the greatest id of those entered. -/
theorem Arranged.le_head {id parent : NodeId} (hid : id ∈ layout.path)
    (hparent : layout.path.head? = some parent) : id ≤ parent := by
  obtain ⟨outer, houter⟩ := List.head?_eq_some_iff.1 hparent
  have hsorted := harranged.path_sorted
  rw [houter, List.pairwise_cons] at hsorted
  rw [houter] at hid
  rcases List.mem_cons.1 hid with rfl | hid
  · exact Nat.le_refl _
  · exact Nat.le_of_lt (hsorted.1 id hid)

/-- Everything behind an entered node lies below it, the new node included. -/
theorem Arranged.entered_add {id other : NodeId} (hid : id ∈ layout.path) (hlt : id < other)
    (hother : other < layout.nodes.size + 1) :
    ∃ parent, ((layout.add kind span named).node other).parent = some parent ∧ id ≤ parent := by
  rcases Nat.lt_succ_iff_lt_or_eq.1 hother with hother | rfl
  · rw [parent_add_of_lt kind span named hother]
    exact harranged.entered id hid other hlt hother
  · obtain ⟨parent, hparent⟩ : ∃ parent, layout.path.head? = some parent :=
      Option.ne_none_iff_exists'.1 fun hnone => by
        rw [List.head?_eq_none_iff.1 hnone] at hid
        exact absurd hid List.not_mem_nil
    rw [parent_add_self]
    exact ⟨parent, hparent, harranged.le_head hid hparent⟩

theorem Arranged.between_add {id child other : NodeId}
    (hchild : ((layout.add kind span named).node child).parent = some id) (hlt : id < other)
    (hother : other < child) :
    ∃ parent, ((layout.add kind span named).node other).parent = some parent ∧ id ≤ parent := by
  rcases parent_add_cases kind span named hchild with ⟨hold, hparent⟩ | ⟨rfl, hhead⟩
  · rw [parent_add_of_lt kind span named (Nat.lt_trans hother hold)]
    exact harranged.between id child hparent other hlt hother
  · exact harranged.entered_add kind span named (List.mem_of_mem_head? hhead) hlt
      (Nat.lt_succ_of_lt hother)

theorem Arranged.add : (layout.add kind span named).Arranged where
  toLinked := harranged.toLinked.add kind span named
  path_sorted := by
    rw [path_add]
    exact harranged.path_sorted
  path_closed := by
    intro id hid parent hparent
    rw [path_add] at hid ⊢
    rw [parent_add_of_lt kind span named (harranged.path_lt id hid)] at hparent
    exact harranged.path_closed id hid parent hparent
  placed := by
    intro id parent hparent
    rw [harranged.toLinked.children_add]
    rcases parent_add_cases kind span named hparent with ⟨hid, hparent⟩ | ⟨rfl, hhead⟩
    · have hplaced := harranged.placed id parent hparent
      rw [position_add_of_lt kind span named hid]
      rw [List.getElem?_append_left (List.getElem?_eq_some_iff.1 hplaced).1]
      exact hplaced
    · rw [position_add_self kind span named hhead, if_pos hhead]
      exact List.getElem?_concat_length
  entered := by
    intro id hid other hlt hother
    rw [path_add] at hid
    rw [size_add] at hother
    exact harranged.entered_add kind span named hid hlt hother
  between := fun _ _ hchild _ hlt hother =>
    harranged.between_add kind span named hchild hlt hother

theorem Arranged.enter : (layout.enter kind span named).Arranged where
  toLinked := harranged.toLinked.enter kind span named
  path_sorted := List.pairwise_cons.2 ⟨harranged.path_lt, harranged.path_sorted⟩
  path_closed := by
    intro id hid parent hparent
    refine List.mem_cons_of_mem _ ?_
    rcases parent_add_cases kind span named hparent with ⟨hlt, hparent⟩ | ⟨-, hhead⟩
    · have hmem := (List.mem_cons.1 hid).resolve_left (Nat.ne_of_lt hlt)
      exact harranged.path_closed id hmem parent hparent
    · exact List.mem_of_mem_head? hhead
  placed := (harranged.add kind span named).placed
  entered := by
    intro id hid other hlt hother
    have hsize : other < layout.nodes.size + 1 :=
      Nat.lt_of_lt_of_eq hother (layout.size_add kind span named)
    rcases List.mem_cons.1 hid with rfl | hid
    · exact absurd hlt (Nat.not_lt_of_le (Nat.le_of_lt_succ hsize))
    · exact harranged.entered_add kind span named hid hlt hsize
  between := (harranged.add kind span named).between

end Add

/-- Leaving the innermost nodes keeps the rest. -/
theorem Arranged.drop {layout : Layout} (harranged : layout.Arranged) (count : Nat) :
    Arranged { layout with path := layout.path.drop count } where
  toLinked := harranged.toLinked.of_path fun _ => List.mem_of_mem_drop
  path_sorted := harranged.path_sorted.drop
  path_closed := by
    intro id hid parent hparent
    have hmem := harranged.path_closed id (List.mem_of_mem_drop hid) parent hparent
    have hlt := harranged.parent_lt id parent hparent
    have hsplit := List.take_append_drop count layout.path
    have hsorted := harranged.path_sorted
    rw [← hsplit, List.pairwise_append] at hsorted
    rw [← hsplit, List.mem_append] at hmem
    refine hmem.resolve_left fun hleft => ?_
    exact Nat.lt_asymm hlt (hsorted.2.2 parent hleft id hid)
  placed := harranged.placed
  entered := fun id hid => harranged.entered id (List.mem_of_mem_drop hid)
  between := harranged.between

theorem Arranged.leave {layout : Layout} (harranged : layout.Arranged) : layout.leave.Arranged := by
  rw [Layout.leave, ← List.drop_one]
  exact harranged.drop 1

theorem Arranged.visit {layout : Layout} (harranged : layout.Arranged) (node : ParseNode) :
    (layout.visit node).Arranged :=
  (harranged.drop _).enter node.kind node.span node.named

theorem Arranged.foldl_visit {layout : Layout} (harranged : layout.Arranged) (parse : ParseTree) :
    (parse.foldl Layout.visit layout).Arranged := by
  induction parse generalizing layout with
  | nil => exact harranged
  | cons node rest ih => exact ih (harranged.visit node)

/-! ### One root -/

/-- Something is entered, and only the first node has no parent. -/
structure Rooted (layout : Layout) : Prop where
  path_ne : layout.path ≠ []
  rooted : ∀ id, id < layout.nodes.size → (layout.node id).parent = none → id = 0

theorem Rooted.leaveTo {layout : Layout} (hrooted : layout.Rooted) {depth : Nat}
    (hdepth : 0 < depth) : (layout.leaveTo depth).Rooted where
  path_ne := by
    have hpos := List.length_pos_iff.2 hrooted.path_ne
    rw [Layout.leaveTo, ← List.length_pos_iff, List.length_drop]
    omega
  rooted := hrooted.rooted

theorem Rooted.enter {layout : Layout} (hrooted : layout.Rooted) (kind : String) (span : Span)
    (named : Bool) : (layout.enter kind span named).Rooted where
  path_ne := nofun
  rooted := by
    intro id hid hparent
    have hlt : id < layout.nodes.size + 1 :=
      Nat.lt_of_lt_of_eq hid (size_add layout kind span named)
    rcases Nat.lt_succ_iff_lt_or_eq.1 hlt with hid | rfl
    · have hold := parent_add_of_lt kind span named hid
      exact hrooted.rooted id hid (hold.symm.trans hparent)
    · have hhead : layout.path.head? = none :=
        (parent_add_self kind span named).symm.trans hparent
      exact absurd (List.head?_eq_none_iff.1 hhead) hrooted.path_ne

theorem Rooted.foldl_visit {layout : Layout} (hrooted : layout.Rooted) {parse : ParseTree}
    (hdepth : ∀ node ∈ parse, 0 < node.depth) : (parse.foldl Layout.visit layout).Rooted := by
  induction parse generalizing layout with
  | nil => exact hrooted
  | cons node rest ih =>
      rw [List.forall_mem_cons] at hdepth
      exact ih ((hrooted.leaveTo hdepth.1).enter node.kind node.span node.named) hdepth.2

theorem rooted_enter_empty (kind : String) (span : Span) (named : Bool) :
    (Layout.empty.enter kind span named).Rooted where
  path_ne := nofun
  rooted := fun _ hid _ => Nat.lt_one_iff.1 hid

end Layout

/-! ### Trees -/

/-- What can follow a node of some depth when the nodes of a tree come in the order of their first
visit: nodes below the root, each at most one level below the one before it. -/
def ParseTree.Continues (depth : Nat) : ParseTree → Prop
  | [] => True
  | node :: rest => 0 < node.depth ∧ node.depth ≤ depth + 1 ∧ Continues node.depth rest

def ParseTree.IsPreorder : ParseTree → Prop
  | [] => False
  | top :: rest => top.depth = 0 ∧ Continues top.depth rest

theorem ParseTree.Continues.depth_pos {depth : Nat} {parse : ParseTree}
    (hcontinues : Continues depth parse) : ∀ node ∈ parse, 0 < node.depth := by
  induction parse generalizing depth with
  | nil => exact nofun
  | cons node rest ih => exact List.forall_mem_cons.2 ⟨hcontinues.1, ih hcontinues.2.2⟩

namespace Tree

/-- The trees made of one parse in preorder, and those built call by call. -/
inductive WellMade : Tree → Prop where
  | parsed (source : Text) {parse : ParseTree} (hpreorder : parse.IsPreorder) :
      WellMade (.ofParse source parse)
  | built {source : Text} {calls : List Draft.Call} {tree : Tree}
      (hbuild : Tree.build source calls = .ok tree) : WellMade tree

def stop (tree : Tree) (id : NodeId) : NodeId :=
  (tree.node id).subtreeEnd

structure Arranged (tree : Tree) : Prop extends tree.Linked where
  nonempty : 0 < tree.size
  rooted : ∀ id, id < tree.size → tree.parent? id = none → id = root
  placed : ∀ id parent, tree.parent? id = some parent →
    tree.child? parent (tree.node id).position = some id
  between : ∀ id child, tree.parent? child = some id → ∀ other, id < other → other < child →
    ∃ parent, tree.parent? other = some parent ∧ id ≤ parent
  stop_eq : ∀ id, id < tree.size →
    tree.stop id = (tree.children id).getLast?.elim (id + 1) tree.stop

theorem Arranged.assemble {layout : Layout} (harranged : layout.Arranged)
    (hnonempty : 0 < layout.nodes.size)
    (hrooted : ∀ id, id < layout.nodes.size → (layout.node id).parent = none → id = root)
    (source : Text) : (assemble source layout.nodes).Arranged where
  toLinked := .assemble harranged.toLinked source
  nonempty := Nat.lt_of_lt_of_eq hnonempty (size_assemble source).symm
  rooted := by
    intro id hid hparent
    rw [size_assemble] at hid
    rw [parent?_assemble] at hparent
    exact hrooted id hid hparent
  placed := by
    intro id parent hparent
    rw [parent?_assemble] at hparent
    rw [child?, children_assemble, position_assemble]
    exact harranged.placed id parent hparent
  between := by
    intro id child hchild other hlt hother
    rw [parent?_assemble] at hchild ⊢
    exact harranged.between id child hchild other hlt hother
  stop_eq := by
    intro id hid
    rw [size_assemble] at hid
    have hforward : Forward layout.nodes := fun id child hchild =>
      harranged.parent_lt child id (harranged.toLinked.mem_children_iff.1 hchild)
    exact hforward.subtreeEnd_assemble source
      (fun _ _ hchild => harranged.toLinked.lt_of_mem_children hchild) hid

theorem arranged_ofParse (source : Text) {parse : ParseTree} (hpreorder : parse.IsPreorder) :
    (ofParse source parse).Arranged := by
  rw [ofParse_eq_assemble]
  cases parse with
  | nil => exact hpreorder.elim
  | cons top rest =>
      obtain ⟨htop, hrest⟩ := hpreorder
      have hlayout := Layout.arranged_empty.foldl_visit (top :: rest)
      have hfirst : Layout.empty.visit top = Layout.empty.enter top.kind top.span top.named := by
        rw [Layout.visit, htop]
        rfl
      have hrooted : ((top :: rest).foldl Layout.visit .empty).Rooted := by
        rw [List.foldl_cons, hfirst]
        exact (Layout.rooted_enter_empty top.kind top.span top.named).foldl_visit hrest.depth_pos
      refine .assemble hlayout ?_ hrooted.rooted source
      obtain ⟨id, hid⟩ := List.exists_mem_of_ne_nil _ hrooted.path_ne
      exact Nat.zero_lt_of_lt (hlayout.path_lt id hid)

theorem Linked.pairwise_children {tree : Tree} (hlinked : tree.Linked) (id : NodeId) :
    (tree.children id).Pairwise (· < ·) := by
  rw [hlinked.children_eq id]
  exact List.Pairwise.filter _ List.pairwise_lt_range

/-! ### Where subtrees end -/

section Arranged

variable {tree : Tree} (harranged : tree.Arranged)
include harranged

/-- What holds of the end of a leaf, and of every end that a last child hands on, holds of the ends
of all nodes. -/
theorem Arranged.stop_induction (holds : NodeId → NodeId → Prop)
    (hleaf : ∀ id, id < tree.size → holds id (id + 1))
    (hlast : ∀ id last, tree.parent? last = some id → (tree.children id).getLast? = some last →
      holds last (tree.stop last) → holds id (tree.stop last)) {id : NodeId}
    (hid : id < tree.size) : holds id (tree.stop id) := by
  induction hgap : tree.size - id using Nat.strongRecOn generalizing id with
  | ind gap ih =>
      rw [harranged.stop_eq id hid]
      cases hchildren : (tree.children id).getLast? with
      | none => exact hleaf id hid
      | some last =>
          have hparent := harranged.mem_children_iff.1 (List.mem_of_getLast? hchildren)
          have hlt := Nat.sub_lt_sub_left hid (harranged.parent_lt last id hparent)
          rw [hgap] at hlt
          exact hlast id last hparent hchildren (ih _ hlt (lt_size_of_parent? hparent) rfl)

theorem Arranged.lt_stop {id : NodeId} (hid : id < tree.size) : id < tree.stop id := by
  refine harranged.stop_induction (· < ·) (fun id _ => Nat.lt_succ_self id) ?_ hid
  intro id last hparent _ hlast
  exact Nat.lt_trans (harranged.parent_lt last id hparent) hlast

theorem Arranged.stop_le_size (id : NodeId) : tree.stop id ≤ tree.size := by
  by_cases hid : id < tree.size
  · exact harranged.stop_induction (fun _ stop => stop ≤ tree.size) (fun _ hid => hid)
      (fun _ _ _ _ hlast => hlast) hid
  · have hnode : tree.node id = default :=
      @Layout.node_of_size_le ⟨tree.nodes, []⟩ id (Nat.le_of_not_lt hid)
    rw [stop, hnode]
    exact Nat.zero_le _

/-- Everything between a node and its end is below it. -/
theorem Arranged.between_stop {id other : NodeId} (hid : id < tree.size) (hlt : id < other)
    (hstop : other < tree.stop id) : ∃ parent, tree.parent? other = some parent ∧ id ≤ parent := by
  have hall : ∀ other, id < other → other < tree.stop id →
      ∃ parent, tree.parent? other = some parent ∧ id ≤ parent := by
    refine harranged.stop_induction (fun id stop => ∀ other, id < other → other < stop →
      ∃ parent, tree.parent? other = some parent ∧ id ≤ parent) ?leaf ?last hid
    case leaf =>
      intro id _ other hlt hstop
      exact absurd hlt (Nat.not_lt_of_le (Nat.le_of_lt_succ hstop))
    case last =>
      intro id last hparent _ hlast other hlt hstop
      have hlastLt := harranged.parent_lt last id hparent
      rcases Nat.lt_trichotomy other last with hother | rfl | hother
      · exact harranged.between id last hparent other hlt hother
      · exact ⟨id, hparent, Nat.le_refl id⟩
      · obtain ⟨parent, hother, hle⟩ := hlast other hother hstop
        exact ⟨parent, hother, Nat.le_trans (Nat.le_of_lt hlastLt) hle⟩
  exact hall other hlt hstop

theorem Arranged.stop_le_sibling {parent left right : NodeId}
    (hleft : tree.parent? left = some parent) (hright : tree.parent? right = some parent)
    (hlt : left < right) : tree.stop left ≤ right := by
  refine Nat.le_of_not_lt fun hstop => ?_
  -- A sibling within the subtree would have the parent below its own child.
  obtain ⟨above, habove, hle⟩ := harranged.between_stop (lt_size_of_parent? hleft) hlt hstop
  obtain rfl : parent = above := Option.some.inj (hright.symm.trans habove)
  exact absurd (harranged.parent_lt left parent hleft) (Nat.not_lt_of_le hle)

/-- Of all children the last one ends last, where its parent does. -/
theorem Arranged.stop_le {id parent : NodeId} (hparent : tree.parent? id = some parent) :
    tree.stop id ≤ tree.stop parent := by
  have hchild := harranged.mem_children_iff.2 hparent
  have hid := lt_size_of_parent? hparent
  rw [harranged.stop_eq parent (Nat.lt_trans (harranged.parent_lt id parent hparent) hid)]
  have hlast := List.getLast?_eq_some_getLast (List.ne_nil_of_mem hchild)
  generalize (tree.children parent).getLast _ = last at hlast
  have hlastParent := harranged.mem_children_iff.1 (List.mem_of_getLast? hlast)
  obtain ⟨front, hfront⟩ := List.getLast?_eq_some_iff.1 hlast
  have hsorted := harranged.pairwise_children parent
  rw [hfront, List.pairwise_append] at hsorted
  rw [hfront, List.mem_append, List.mem_singleton] at hchild
  rw [hlast, Option.elim_some]
  rcases hchild with hchild | rfl
  · have hlt := hsorted.2.2 id hchild last (List.mem_singleton_self _)
    calc tree.stop id
        ≤ last := harranged.stop_le_sibling hparent hlastParent hlt
      _ ≤ tree.stop last := Nat.le_of_lt (harranged.lt_stop (lt_size_of_parent? hlastParent))
  · exact Nat.le_refl _

end Arranged

end Tree

namespace Draft

theorem arranged_call {draft : Draft} (harranged : draft.layout.Arranged) (next : Call) :
    (draft.call next).layout.Arranged := by
  cases next with
  | opening kind span => exact harranged.enter kind span true
  | leaf kind span => exact harranged.add kind span true
  | closing => exact harranged.leave

theorem arranged_foldl_call {draft : Draft} (harranged : draft.layout.Arranged)
    (calls : List Call) : (calls.foldl Draft.call draft).layout.Arranged := by
  induction calls generalizing draft with
  | nil => exact harranged
  | cons next rest ih => exact ih (arranged_call harranged next)

end Draft

namespace Tree

theorem arranged_build {source : Text} {calls : List Draft.Call} {tree : Tree}
    (hbuild : build source calls = .ok tree) : tree.Arranged := by
  obtain ⟨herror, -, hnonempty, rfl⟩ := Draft.finish_eq_ok_iff.1 hbuild
  have hlinked : (Draft.new source).layout.Linked := Layout.linked_empty
  have hempty : (Draft.new source).layout.Arranged := Layout.arranged_empty
  have hnested := Draft.nested_foldl_call hlinked (fun _ => Layout.nested_empty) calls herror
  exact .assemble (Draft.arranged_foldl_call hempty calls) hnonempty hnested.rooted _

/-- **Trees are arranged in the order of first visits.** -/
theorem WellMade.arranged {tree : Tree} (hmade : tree.WellMade) : tree.Arranged := by
  cases hmade with
  | parsed source hpreorder => exact arranged_ofParse source hpreorder
  | built hbuild => exact arranged_build hbuild

end Tree

end HclEdit
