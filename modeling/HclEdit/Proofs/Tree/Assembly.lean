import HclEdit.Tree.Layout

/-!
# Telling where subtrees end

The last pass over the nodes tells of each where its subtree ends, and leaves everything else as it
was laid out. Since children come after their parents, the end of the last child has been told
before that of its parent.
-/

namespace HclEdit

/-- A node but for where its subtree ends. -/
def Node.untold (node : Node) : Node :=
  { node with subtreeEnd := 0 }

namespace Tree

/-- The node with an id; an id that is not in the array stands for an empty unnamed node. -/
def nodeAt (nodes : Array Node) (id : NodeId) : Node :=
  nodes[id]?.getD default

variable {nodes : Array Node} {id other : NodeId}

/-! ### What stays -/

theorem getElem?_tellEnd_of_ne (hne : id ≠ other) :
    (tellEnd id nodes)[other]? = nodes[other]? := by
  rw [tellEnd, Array.getElem?_modify, if_neg hne]

theorem nodeAt_tellEnd_self (hid : id < nodes.size) :
    nodeAt (tellEnd id nodes) id = { nodeAt nodes id with subtreeEnd := endIn nodes id } := by
  unfold nodeAt tellEnd
  rw [Array.getElem?_modify, if_pos rfl, Array.getElem?_eq_getElem hid]
  rfl

theorem size_tellEnd : (tellEnd id nodes).size = nodes.size :=
  Array.size_modify

theorem untold_tellEnd :
    (nodeAt (tellEnd id nodes) other).untold = (nodeAt nodes other).untold := by
  by_cases hother : id = other
  · subst hother
    by_cases hid : id < nodes.size
    · rw [nodeAt_tellEnd_self hid]
      rfl
    · have hsize : nodes.size ≤ id := Nat.le_of_not_lt hid
      unfold nodeAt
      rw [Array.getElem?_eq_none hsize, Array.getElem?_eq_none (size_tellEnd.symm ▸ hsize)]
  · rw [nodeAt, getElem?_tellEnd_of_ne hother]
    rfl

theorem foldr_tellEnd_succ (nodes : Array Node) (count : Nat) :
    (List.range (count + 1)).foldr tellEnd nodes =
      (List.range count).foldr tellEnd (tellEnd count nodes) := by
  rw [List.range_succ, List.foldr_append]
  rfl

theorem size_foldr_tellEnd (nodes : Array Node) (count : Nat) :
    ((List.range count).foldr tellEnd nodes).size = nodes.size := by
  induction count generalizing nodes with
  | zero => rfl
  | succ count ih => rw [foldr_tellEnd_succ, ih, size_tellEnd]

theorem untold_foldr_tellEnd (nodes : Array Node) (count : Nat) (id : NodeId) :
    (nodeAt ((List.range count).foldr tellEnd nodes) id).untold = (nodeAt nodes id).untold := by
  induction count generalizing nodes with
  | zero => rfl
  | succ count ih => rw [foldr_tellEnd_succ, ih, untold_tellEnd]

/-! ### The ends -/

/-- No child comes before its parent. -/
def Forward (nodes : Array Node) : Prop :=
  ∀ id, ∀ child ∈ (nodeAt nodes id).children, id < child

theorem children_tellEnd :
    (nodeAt (tellEnd id nodes) other).children = (nodeAt nodes other).children :=
  (congrArg Node.children untold_tellEnd :)

theorem Forward.tellEnd (hforward : Forward nodes) (id : NodeId) : Forward (tellEnd id nodes) := by
  intro parent child hchild
  rw [children_tellEnd] at hchild
  exact hforward parent child hchild

theorem endIn_eq_elim (nodes : Array Node) (id : NodeId) :
    endIn nodes id = ((nodeAt nodes id).children.getLast?.bind (nodes[·]?)).elim (id + 1)
      Node.subtreeEnd := by
  unfold endIn nodeAt
  cases nodes[id]? with
  | none => rfl
  | some node =>
      rw [Option.bind_some, Option.getD_some]
      cases node.children.getLast?.bind (nodes[·]?) <;> rfl

/-- Telling an end does not change what the ends of later nodes are told by. -/
theorem Forward.endIn_tellEnd (hforward : Forward nodes) (hle : id ≤ other) :
    endIn (Tree.tellEnd id nodes) other = endIn nodes other := by
  rw [endIn_eq_elim, endIn_eq_elim, children_tellEnd]
  cases hlast : (nodeAt nodes other).children.getLast? with
  | none => rfl
  | some last =>
      have hlt := hforward other last (List.mem_of_getLast? hlast)
      rw [Option.bind_some, Option.bind_some,
        getElem?_tellEnd_of_ne (Nat.ne_of_lt (Nat.lt_of_le_of_lt hle hlt))]

theorem Forward.subtreeEnd_foldr (hforward : Forward nodes) {count : Nat}
    (htold : ∀ id, count ≤ id → id < nodes.size → (nodeAt nodes id).subtreeEnd = endIn nodes id)
    (hid : id < nodes.size) :
    (nodeAt ((List.range count).foldr Tree.tellEnd nodes) id).subtreeEnd =
      endIn ((List.range count).foldr Tree.tellEnd nodes) id := by
  induction count generalizing nodes with
  | zero => exact htold id (Nat.zero_le id) hid
  | succ count ih =>
      rw [foldr_tellEnd_succ]
      refine ih (hforward.tellEnd count) (fun other hle hother => ?_) (size_tellEnd.symm ▸ hid)
      rw [size_tellEnd] at hother
      rw [hforward.endIn_tellEnd hle]
      rcases Nat.eq_or_lt_of_le hle with rfl | hlt
      · rw [nodeAt_tellEnd_self hother]
      · rw [nodeAt, getElem?_tellEnd_of_ne (Nat.ne_of_lt hlt)]
        exact htold other hlt hother

/-! ### The tree -/

variable (source : Text)

theorem size_assemble : (assemble source nodes).size = nodes.size :=
  size_foldr_tellEnd nodes nodes.size

/-- Nothing else about a node has changed. -/
theorem untold_assemble : ((assemble source nodes).node id).untold = (nodeAt nodes id).untold :=
  untold_foldr_tellEnd nodes nodes.size id

theorem kind_assemble : (assemble source nodes).kind id = (nodeAt nodes id).kind :=
  (congrArg Node.kind (untold_assemble source) :)

theorem span_assemble : (assemble source nodes).span id = (nodeAt nodes id).span :=
  (congrArg Node.span (untold_assemble source) :)

theorem parent?_assemble : (assemble source nodes).parent? id = (nodeAt nodes id).parent :=
  (congrArg Node.parent (untold_assemble source) :)

theorem children_assemble : (assemble source nodes).children id = (nodeAt nodes id).children :=
  (congrArg Node.children (untold_assemble source) :)

theorem position_assemble :
    ((assemble source nodes).node id).position = (nodeAt nodes id).position :=
  (congrArg Node.position (untold_assemble source) :)

/-- **A subtree ends where that of its last child does**, or right behind a node without
children. -/
theorem Forward.subtreeEnd_assemble (hforward : Forward nodes)
    (hsize : ∀ id, ∀ child ∈ (nodeAt nodes id).children, child < nodes.size)
    (hid : id < nodes.size) :
    ((assemble source nodes).node id).subtreeEnd =
      ((assemble source nodes).children id).getLast?.elim (id + 1) fun last =>
        ((assemble source nodes).node last).subtreeEnd := by
  have htold : ∀ id, nodes.size ≤ id → id < nodes.size →
      (nodeAt nodes id).subtreeEnd = endIn nodes id :=
    fun id hle hlt => absurd hlt (Nat.not_lt_of_le hle)
  have hend : ((assemble source nodes).node id).subtreeEnd = endIn (tellEnds nodes) id :=
    hforward.subtreeEnd_foldr htold hid
  have hchildren : (nodeAt (tellEnds nodes) id).children = (nodeAt nodes id).children :=
    children_assemble source
  rw [hend, endIn_eq_elim, hchildren, children_assemble]
  cases hlast : (nodeAt nodes id).children.getLast? with
  | none => rfl
  | some last =>
      have hlt : last < (tellEnds nodes).size :=
        Nat.lt_of_lt_of_eq (hsize id last (List.mem_of_getLast? hlast))
          (size_assemble source).symm
      have hnode : (assemble source nodes).node last = (tellEnds nodes)[last] := by
        change (tellEnds nodes)[last]?.getD default = _
        rw [Array.getElem?_eq_getElem hlt]
        rfl
      rw [Option.bind_some, Array.getElem?_eq_getElem hlt, Option.elim_some, Option.elim_some,
        hnode]

end Tree

end HclEdit
