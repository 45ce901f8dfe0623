import HclEdit.Proofs.Tree.Assembly
import HclEdit.Proofs.Tree.Walk
import HclEdit.Tree.Draft

/-!
# Parents and children

However a layout came about, the children of a node are the nodes with that parent, in the order of
their ids, and a parent comes before its children. Both ways of making a tree lay its nodes out, so
every tree is linked in this sense.
-/

namespace HclEdit

namespace Layout

def node (layout : Layout) (id : NodeId) : Node :=
  Tree.nodeAt layout.nodes id

theorem node_of_size_le {layout : Layout} {id : NodeId} (hid : layout.nodes.size ≤ id) :
    layout.node id = default := by
  rw [node, Tree.nodeAt, Array.getElem?_eq_none hid]
  rfl

theorem lt_size_of_parent {layout : Layout} {id parent : NodeId}
    (hparent : (layout.node id).parent = some parent) : id < layout.nodes.size := by
  refine Nat.lt_of_not_le fun hid => ?_
  rw [node_of_size_le hid] at hparent
  exact absurd hparent nofun

structure Linked (layout : Layout) : Prop where
  path_lt : ∀ id ∈ layout.path, id < layout.nodes.size
  children_eq : ∀ id, (layout.node id).children =
    (List.range layout.nodes.size).filter fun child => (layout.node child).parent = some id
  parent_lt : ∀ id parent, (layout.node id).parent = some parent → parent < id

theorem Linked.mem_children_iff {layout : Layout} (hlinked : layout.Linked) {id child : NodeId} :
    child ∈ (layout.node id).children ↔ (layout.node child).parent = some id := by
  rw [hlinked.children_eq, List.mem_filter, List.mem_range, decide_eq_true_iff]
  exact and_iff_right_of_imp lt_size_of_parent

theorem linked_empty : Layout.empty.Linked where
  path_lt := nofun
  children_eq := fun _ => rfl
  parent_lt := nofun

section Add

variable (layout : Layout) (kind : String) (span : Span) (named : Bool)

theorem node_add_self :
    ∃ position, (layout.add kind span named).node layout.nodes.size =
      ⟨kind, span, named, layout.path.head?, [], position, layout.nodes.size⟩ := by
  unfold add node Tree.nodeAt
  split
  · next hhead => exact ⟨0, by simp [hhead]⟩
  · next parent hhead =>
      refine ⟨(layout.nodes[parent]?.getD default).children.length, ?_⟩
      rw [hhead, Array.getElem?_push, Array.size_modify, if_pos rfl]
      rfl

variable {layout}

/-- Of the nodes that were there before, the innermost entered one gets one more child. -/
theorem node_add_of_lt {id : NodeId} (hid : id < layout.nodes.size) :
    (layout.add kind span named).node id =
      if layout.path.head? = some id then
        { layout.node id with children := (layout.node id).children ++ [layout.nodes.size] }
      else layout.node id := by
  unfold add node Tree.nodeAt
  split
  · next hhead => simp [hhead, Array.getElem?_push, Nat.ne_of_lt hid]
  · next parent hhead =>
      rw [hhead, Array.getElem?_push, Array.size_modify, if_neg (Nat.ne_of_lt hid),
        Array.getElem?_modify]
      by_cases hparent : parent = id
      · subst hparent
        simp [hid]
      · simp [hparent]

theorem parent_add_self :
    ((layout.add kind span named).node layout.nodes.size).parent = layout.path.head? := by
  obtain ⟨position, hnode⟩ := layout.node_add_self kind span named
  rw [hnode]

theorem span_add_self :
    ((layout.add kind span named).node layout.nodes.size).span = span := by
  obtain ⟨position, hnode⟩ := layout.node_add_self kind span named
  rw [hnode]

theorem parent_add_of_lt {id : NodeId} (hid : id < layout.nodes.size) :
    ((layout.add kind span named).node id).parent = (layout.node id).parent := by
  rw [node_add_of_lt kind span named hid]
  split <;> rfl

theorem span_add_of_lt {id : NodeId} (hid : id < layout.nodes.size) :
    ((layout.add kind span named).node id).span = (layout.node id).span := by
  rw [node_add_of_lt kind span named hid]
  split <;> rfl

variable (hlinked : layout.Linked)
include hlinked

theorem Linked.head?_lt {parent : NodeId} (hparent : layout.path.head? = some parent) :
    parent < layout.nodes.size :=
  hlinked.path_lt parent (List.mem_of_mem_head? hparent)

theorem Linked.children_add (id : NodeId) :
    ((layout.add kind span named).node id).children =
      (layout.node id).children ++
        if layout.path.head? = some id then [layout.nodes.size] else [] := by
  have hhead : layout.nodes.size ≤ id → layout.path.head? ≠ some id := by
    intro hid hhead
    exact absurd (hlinked.head?_lt hhead) (Nat.not_lt_of_le hid)
  rcases Nat.lt_trichotomy id layout.nodes.size with hid | rfl | hid
  · rw [node_add_of_lt kind span named hid]
    split
    · rfl
    · exact (List.append_nil _).symm
  · obtain ⟨position, hnode⟩ := layout.node_add_self kind span named
    rw [hnode, node_of_size_le (Nat.le_refl _), if_neg (hhead (Nat.le_refl _))]
    rfl
  · rw [node_of_size_le (by rw [size_add]; exact hid), node_of_size_le (Nat.le_of_lt hid),
      if_neg (hhead (Nat.le_of_lt hid))]
    rfl

theorem Linked.parent_add_lt {id parent : NodeId}
    (hparent : ((layout.add kind span named).node id).parent = some parent) : parent < id := by
  have hlt := lt_size_of_parent hparent
  rw [size_add] at hlt
  rcases Nat.lt_succ_iff_lt_or_eq.1 hlt with hid | rfl
  · rw [parent_add_of_lt kind span named hid] at hparent
    exact hlinked.parent_lt id parent hparent
  · rw [parent_add_self] at hparent
    exact hlinked.head?_lt hparent

theorem Linked.add : (layout.add kind span named).Linked where
  path_lt := by
    intro id hid
    rw [path_add] at hid
    rw [size_add]
    exact Nat.lt_succ_of_lt (hlinked.path_lt id hid)
  children_eq := by
    intro id
    have hbefore : (List.range layout.nodes.size).filter
          (fun child => ((layout.add kind span named).node child).parent = some id) =
        (layout.node id).children := by
      rw [hlinked.children_eq id]
      refine List.filter_congr fun child hchild => ?_
      rw [parent_add_of_lt kind span named (List.mem_range.1 hchild)]
    rw [hlinked.children_add, size_add, List.range_succ, List.filter_append, hbefore]
    congr 1
    rw [List.filter_cons, List.filter_nil, parent_add_self]
    by_cases hhead : layout.path.head? = some id <;> simp [hhead]
  parent_lt := fun _ _ => hlinked.parent_add_lt kind span named

theorem Linked.enter : (layout.enter kind span named).Linked where
  path_lt := by
    intro id hid
    have hsize : (layout.enter kind span named).nodes.size = layout.nodes.size + 1 :=
      size_add layout kind span named
    rw [hsize]
    rcases List.mem_cons.1 hid with rfl | hid
    · exact Nat.lt_succ_self _
    · exact Nat.lt_succ_of_lt (hlinked.path_lt id hid)
  children_eq := (hlinked.add kind span named).children_eq
  parent_lt := (hlinked.add kind span named).parent_lt

end Add

/-- Leaving nodes changes none of them. -/
theorem Linked.of_path {layout : Layout} (hlinked : layout.Linked) {path : List NodeId}
    (hpath : ∀ id ∈ path, id ∈ layout.path) : Linked { layout with path } where
  path_lt := fun id hid => hlinked.path_lt id (hpath id hid)
  children_eq := hlinked.children_eq
  parent_lt := hlinked.parent_lt

theorem Linked.leave {layout : Layout} (hlinked : layout.Linked) : layout.leave.Linked :=
  hlinked.of_path fun _ => List.mem_of_mem_tail

theorem Linked.leaveTo {layout : Layout} (hlinked : layout.Linked) (depth : Nat) :
    (layout.leaveTo depth).Linked :=
  hlinked.of_path fun _ => List.mem_of_mem_drop

theorem Linked.visit {layout : Layout} (hlinked : layout.Linked) (node : ParseNode) :
    (layout.visit node).Linked :=
  (hlinked.leaveTo node.depth).enter node.kind node.span node.named

theorem Linked.foldl_visit {layout : Layout} (hlinked : layout.Linked) (parse : ParseTree) :
    (parse.foldl Layout.visit layout).Linked := by
  induction parse generalizing layout with
  | nil => exact hlinked
  | cons node rest ih => exact ih (hlinked.visit node)

end Layout

/-! ### Trees -/

namespace Tree

structure Linked (tree : Tree) : Prop where
  children_eq : ∀ id, tree.children id =
    (List.range tree.size).filter fun child => tree.parent? child = some id
  parent_lt : ∀ id parent, tree.parent? id = some parent → parent < id

variable {tree : Tree}

theorem lt_size_of_parent? {id parent : NodeId} (hparent : tree.parent? id = some parent) :
    id < tree.size :=
  @Layout.lt_size_of_parent ⟨tree.nodes, []⟩ id parent hparent

theorem Linked.mem_children_iff (hlinked : tree.Linked) {id child : NodeId} :
    child ∈ tree.children id ↔ tree.parent? child = some id := by
  rw [hlinked.children_eq, List.mem_filter, List.mem_range, decide_eq_true_iff]
  exact and_iff_right_of_imp lt_size_of_parent?

theorem Linked.parent?_root (hlinked : tree.Linked) : tree.parent? root = none := by
  cases hparent : tree.parent? root with
  | none => rfl
  | some parent => exact absurd (hlinked.parent_lt root parent hparent) (Nat.not_lt_zero _)

theorem Linked.ne_root_of_parent? (hlinked : tree.Linked) {id parent : NodeId}
    (hparent : tree.parent? id = some parent) : id ≠ root := by
  rintro rfl
  rw [hlinked.parent?_root] at hparent
  exact absurd hparent nofun

/-! ### Ancestors -/

theorem ancestorsUpTo_of_eq_none {id : NodeId} (hparent : tree.parent? id = none) (steps : Nat) :
    tree.ancestorsUpTo steps id = [] := by
  cases steps with
  | zero => rfl
  | succ steps => rw [ancestorsUpTo, hparent]

theorem ancestorsUpTo_of_eq_some {id parent : NodeId} (hparent : tree.parent? id = some parent)
    (steps : Nat) :
    tree.ancestorsUpTo (steps + 1) id = parent :: tree.ancestorsUpTo steps parent := by
  rw [ancestorsUpTo, hparent]

theorem Linked.ancestorsUpTo_succ (hlinked : tree.Linked) {steps : Nat} {id : NodeId}
    (hsteps : id ≤ steps) : tree.ancestorsUpTo (steps + 1) id = tree.ancestorsUpTo steps id := by
  induction steps generalizing id with
  | zero =>
      obtain rfl : id = root := Nat.le_zero.1 hsteps
      rw [ancestorsUpTo_of_eq_none hlinked.parent?_root,
        ancestorsUpTo_of_eq_none hlinked.parent?_root]
  | succ steps ih =>
      cases hparent : tree.parent? id with
      | none => rw [ancestorsUpTo_of_eq_none hparent, ancestorsUpTo_of_eq_none hparent]
      | some parent =>
          have hlt := Nat.lt_of_lt_of_le (hlinked.parent_lt id parent hparent) hsteps
          rw [ancestorsUpTo_of_eq_some hparent, ancestorsUpTo_of_eq_some hparent,
            ih (Nat.le_of_lt_succ hlt)]

theorem ancestors_of_eq_none {id : NodeId} (hparent : tree.parent? id = none) :
    tree.ancestors id = [] :=
  ancestorsUpTo_of_eq_none hparent tree.size

theorem Linked.ancestors_of_eq_some (hlinked : tree.Linked) {id parent : NodeId}
    (hparent : tree.parent? id = some parent) :
    tree.ancestors id = parent :: tree.ancestors parent := by
  have hid := lt_size_of_parent? hparent
  have hlt := hlinked.parent_lt id parent hparent
  unfold ancestors
  obtain ⟨steps, hsteps⟩ := Nat.exists_eq_add_one_of_ne_zero (Nat.ne_of_gt (Nat.zero_lt_of_lt hid))
  rw [hsteps] at hid ⊢
  have hle : parent ≤ steps := Nat.le_of_lt (Nat.lt_of_lt_of_le hlt (Nat.le_of_lt_succ hid))
  rw [hlinked.ancestorsUpTo_succ hle, ancestorsUpTo_of_eq_some hparent]

theorem length_ancestorsUpTo_le (steps : Nat) (id : NodeId) :
    (tree.ancestorsUpTo steps id).length ≤ steps := by
  induction steps generalizing id with
  | zero => exact Nat.le_refl _
  | succ steps ih =>
      cases hparent : tree.parent? id with
      | none =>
          rw [ancestorsUpTo_of_eq_none hparent]
          exact Nat.zero_le _
      | some parent =>
          rw [ancestorsUpTo_of_eq_some hparent]
          exact Nat.succ_le_succ (ih parent)

/-! ### Made trees -/

theorem Linked.assemble {layout : Layout} (hlinked : layout.Linked) (source : Text) :
    (assemble source layout.nodes).Linked where
  children_eq := by
    intro id
    simp only [children_assemble, size_assemble, parent?_assemble]
    exact hlinked.children_eq id
  parent_lt := by
    intro id parent hparent
    rw [parent?_assemble] at hparent
    exact hlinked.parent_lt id parent hparent

/-- **A parsed tree is linked.** -/
theorem linked_ofParse (source : Text) (parse : ParseTree) : (ofParse source parse).Linked := by
  rw [ofParse_eq_assemble]
  exact .assemble (Layout.linked_empty.foldl_visit parse) source

end Tree

namespace Draft

theorem linked_call {draft : Draft} (hlinked : draft.layout.Linked) (next : Call) :
    (draft.call next).layout.Linked := by
  cases next with
  | opening kind span => exact hlinked.enter kind span true
  | leaf kind span => exact hlinked.add kind span true
  | closing => exact hlinked.leave

theorem linked_foldl_call {draft : Draft} (hlinked : draft.layout.Linked) (calls : List Call) :
    (calls.foldl Draft.call draft).layout.Linked := by
  induction calls generalizing draft with
  | nil => exact hlinked
  | cons next rest ih => exact ih (linked_call hlinked next)

/-- What finishes broke no rule, has been left altogether and is not empty. -/
theorem finish_eq_ok_iff {draft : Draft} {tree : Tree} :
    draft.finish = .ok tree ↔ draft.error = none ∧ draft.layout.path = [] ∧
      0 < draft.layout.nodes.size ∧
        Tree.assemble draft.source draft.layout.nodes = tree := by
  unfold finish
  cases herror : draft.error with
  | some error => simp
  | none =>
      by_cases hpath : draft.layout.path = []
      · by_cases hempty : draft.layout.nodes = #[]
        · simp [hpath, hempty]
        · simp [hpath, hempty, Array.size_pos_iff, Draft.tree]
      · simp [hpath]

end Draft

/-- **A built tree is linked.** -/
theorem Tree.linked_build {source : Text} {calls : List Draft.Call} {tree : Tree}
    (hbuild : Tree.build source calls = .ok tree) : tree.Linked := by
  obtain ⟨-, -, -, rfl⟩ := Draft.finish_eq_ok_iff.1 hbuild
  have hempty : (Draft.new source).layout.Linked := Layout.linked_empty
  exact .assemble (Draft.linked_foldl_call hempty calls) _

/-- The trees there are: a tree is either read off a parse or built call by call. -/
inductive Tree.Made : Tree → Prop where
  | parsed (source : Text) (parse : ParseTree) : Made (.ofParse source parse)
  | built {source : Text} {calls : List Draft.Call} {tree : Tree}
      (hbuild : Tree.build source calls = .ok tree) : Made tree

theorem Tree.Made.linked {tree : Tree} (hmade : tree.Made) : tree.Linked := by
  cases hmade with
  | parsed source parse => exact linked_ofParse source parse
  | built hbuild => exact linked_build hbuild

end HclEdit
