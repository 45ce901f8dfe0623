import HclEdit.ParseTree.Walk

/-!
# Walking through a parse

A cursor that goes to the first child, else to the next sibling, else climbs until there is one,
comes to the nodes of a parse one after the other. Before a node is laid out, as many ancestors are
left as the cursor stands deep, so the node goes below the last one that was laid out a level above
it.
-/

namespace HclEdit

namespace Layout

/-- Leaves nodes until no more than `depth` are entered. -/
def leaveTo (layout : Layout) (depth : Nat) : Layout :=
  { layout with path := layout.path.drop (layout.path.length - depth) }

/-- Enters a parse node below the last visited node of the depth before its own. -/
def visit (layout : Layout) (node : ParseNode) : Layout :=
  (layout.leaveTo node.depth).enter node.kind node.span node.named

theorem leaveTo_of_length_le {layout : Layout} {depth : Nat} (hdepth : layout.path.length ≤ depth) :
    layout.leaveTo depth = layout := by
  rw [leaveTo, Nat.sub_eq_zero_of_le hdepth, List.drop_zero]

theorem visit_of_length_le {layout : Layout} {node : ParseNode}
    (hdepth : layout.path.length ≤ node.depth) :
    layout.visit node = layout.enter node.kind node.span node.named := by
  rw [visit, leaveTo_of_length_le hdepth]

end Layout

namespace ParseTree

/-- Whichever of the places a cursor climbs to, what is not below it goes on where the rest does. -/
def Pending (rest : ParseTree) : List Place → Prop
  | [] => True
  | place :: above =>
      place.after.dropWhile (above.length < ·.depth) = rest.dropWhile (above.length < ·.depth) ∧
        Pending rest above

variable {node : ParseNode} {rest : ParseTree} {place : Place} {above : List Place}

theorem dropWhile_cons_of_lt {depth : Nat} (hdepth : depth < node.depth) :
    (node :: rest).dropWhile (depth < ·.depth) = rest.dropWhile (depth < ·.depth) :=
  List.dropWhile_cons_of_pos (decide_eq_true hdepth)

theorem dropWhile_cons_of_le {depth : Nat} (hdepth : node.depth ≤ depth) :
    (node :: rest).dropWhile (depth < ·.depth) = node :: rest :=
  List.dropWhile_cons_of_neg fun hlt =>
    Nat.not_lt_of_le hdepth (of_decide_eq_true hlt)

/-- A node that is as deep as the places above it reach is below all of them. -/
theorem Pending.of_cons (hpending : Pending (node :: rest) above)
    (hdepth : above.length ≤ node.depth) : Pending rest above := by
  induction above with
  | nil => trivial
  | cons place above ih =>
      have hlt : above.length < node.depth := hdepth
      obtain ⟨hplace, habove⟩ := hpending
      rw [dropWhile_cons_of_lt hlt] at hplace
      exact ⟨hplace, ih habove (Nat.le_of_lt hlt)⟩

/-! ### Climbing -/

theorem nextSibling?_of_pending (hpending : Pending (node :: rest) (place :: above))
    (hdepth : node.depth ≤ above.length) :
    Cursor.nextSibling? ⟨place, above⟩ =
      if node.depth = above.length then some ⟨⟨node, rest⟩, above⟩ else none := by
  have hafter : place.after.dropWhile (above.length < ·.depth) = node :: rest :=
    hpending.1.trans (dropWhile_cons_of_le hdepth)
  unfold Cursor.nextSibling?
  rw [hafter]

theorem nextSibling?_of_nil (hpending : Pending [] (place :: above)) :
    Cursor.nextSibling? ⟨place, above⟩ = none := by
  have hafter : place.after.dropWhile (above.length < ·.depth) = [] := hpending.1
  unfold Cursor.nextSibling?
  rw [hafter]

theorem climb_of_nil (hpending : Pending [] (place :: above)) (ancestors : List NodeId) :
    climb place above ancestors = none := by
  induction above generalizing place ancestors with
  | nil => rw [climb, nextSibling?_of_nil hpending]
  | cons parent outer ih =>
      rw [climb, nextSibling?_of_nil hpending]
      exact ih hpending.2 ancestors.tail

/-- The cursor climbs to the level of the next node and drops an ancestor for each level. -/
theorem climb_of_cons (hpending : Pending (node :: rest) (place :: above))
    (hdepth : node.depth ≤ above.length) (ancestors : List NodeId) :
    ∃ outer, climb place above ancestors =
        some (⟨⟨node, rest⟩, outer⟩, ancestors.drop (above.length - node.depth)) ∧
      outer.length = node.depth ∧ Pending (node :: rest) outer := by
  induction above generalizing place ancestors with
  | nil =>
      have hlevel : node.depth = ([] : List Place).length := Nat.le_zero.1 hdepth
      refine ⟨[], ?_, hlevel.symm, trivial⟩
      rw [climb, nextSibling?_of_pending hpending hdepth, if_pos hlevel, hlevel]
      rfl
  | cons parent outer ih =>
      have hnext := nextSibling?_of_pending hpending hdepth
      by_cases hlevel : node.depth = (parent :: outer).length
      · refine ⟨parent :: outer, ?_, hlevel.symm, hpending.2⟩
        rw [climb, hnext, if_pos hlevel, hlevel, Nat.sub_self, List.drop_zero]
      · have hle : node.depth ≤ outer.length :=
          Nat.le_of_lt_succ (Nat.lt_of_le_of_ne hdepth hlevel)
        obtain ⟨reached, hclimb, hreached⟩ := ih hpending.2 hle ancestors.tail
        refine ⟨reached, ?_, hreached⟩
        rw [climb, hnext, if_neg hlevel]
        dsimp only
        rw [hclimb, List.drop_tail, List.length_cons, Nat.succ_sub hle]

/-! ### One round -/

section Walk

variable {rounds : Nat} {cursor : Cursor} {layout : Layout}

theorem walk_of_child {child : Cursor} (hchild : cursor.firstChild? = some child) :
    walk (rounds + 1) cursor layout = walk rounds child
      (layout.enter cursor.place.node.kind cursor.place.node.span cursor.place.node.named) := by
  rw [walk, hchild]
  dsimp only
  rw [Layout.path_add]
  rfl

variable (hchild : cursor.firstChild? = none)
include hchild

theorem walk_of_next {next : Cursor} {ancestors : List NodeId}
    (hclimb : climb cursor.place cursor.above layout.path = some (next, ancestors)) :
    walk (rounds + 1) cursor layout = walk rounds next
      ⟨(layout.add cursor.place.node.kind cursor.place.node.span cursor.place.node.named).nodes,
        ancestors⟩ := by
  rw [walk, hchild]
  dsimp only
  rw [Layout.path_add, hclimb]

theorem walk_of_last (hclimb : climb cursor.place cursor.above layout.path = none) :
    walk (rounds + 1) cursor layout =
      layout.add cursor.place.node.kind cursor.place.node.span cursor.place.node.named := by
  rw [walk, hchild]
  dsimp only
  rw [Layout.path_add, hclimb]

end Walk

/-! ### The whole walk -/

/-- After climbing, the next node is put where it would be put with nothing left before. -/
theorem visit_of_climbed {layout : Layout} {kind : String} {span : Span} {named : Bool}
    {path : List NodeId} (hdepth : node.depth ≤ layout.path.length)
    (hpath : path = layout.path.drop (layout.path.length - node.depth)) :
    Layout.visit ⟨(layout.add kind span named).nodes, path⟩ node =
      (layout.enter kind span named).visit node := by
  have hlength : path.length ≤ node.depth := by
    rw [hpath, List.length_drop]
    omega
  have hleft : (layout.enter kind span named).leaveTo node.depth =
      ⟨(layout.add kind span named).nodes, path⟩ := by
    have hsub : (layout.nodes.size :: layout.path).length - node.depth =
        layout.path.length - node.depth + 1 := Nat.succ_sub hdepth
    unfold Layout.leaveTo Layout.enter
    dsimp only
    rw [hsub, List.drop_succ_cons, ← hpath]
  rw [Layout.visit_of_length_le hlength, Layout.visit, hleft]

/-- **A walk visits node after node.** -/
theorem nodes_walk (node : ParseNode) (after : ParseTree) (above : List Place) (layout : Layout)
    (hpending : Pending after above) (hdepth : above.length ≤ node.depth)
    (hlength : layout.path.length = above.length) :
    (walk (after.length + 1) ⟨⟨node, after⟩, above⟩ layout).nodes =
      ((node :: after).foldl Layout.visit layout).nodes := by
  induction after generalizing node above layout with
  | nil =>
      have hself : Pending [] (⟨node, []⟩ :: above) := ⟨rfl, hpending⟩
      rw [List.foldl_cons, Layout.visit_of_length_le (hlength ▸ hdepth),
        walk_of_last rfl (climb_of_nil hself layout.path)]
      rfl
  | cons next rest ih =>
      have hself : Pending (next :: rest) (⟨node, next :: rest⟩ :: above) := ⟨rfl, hpending⟩
      rw [List.foldl_cons, Layout.visit_of_length_le (hlength ▸ hdepth), List.length_cons]
      by_cases hchild : above.length < next.depth
      · have hfirst : Cursor.firstChild? ⟨⟨node, next :: rest⟩, above⟩ =
            some ⟨⟨next, rest⟩, ⟨node, next :: rest⟩ :: above⟩ := if_pos hchild
        rw [walk_of_child hfirst]
        exact ih next _ _ (hself.of_cons hchild) hchild (congrArg Nat.succ hlength)
      · have hfirst : Cursor.firstChild? ⟨⟨node, next :: rest⟩, above⟩ = none := if_neg hchild
        have hle : next.depth ≤ above.length := Nat.le_of_not_lt hchild
        obtain ⟨outer, hclimb, houter, hreached⟩ := climb_of_cons hself hle layout.path
        rw [walk_of_next hfirst hclimb]
        rw [← hlength] at hle ⊢
        have hlevel := Nat.le_of_eq houter
        rw [ih next outer _ (hreached.of_cons hlevel) hlevel, List.foldl_cons, List.foldl_cons,
          visit_of_climbed hle rfl]
        rw [List.length_drop, houter]
        omega

end ParseTree

/-- **A parse is laid out node by node**, each below the last node of the depth before its own. -/
theorem Tree.ofParse_eq_assemble (source : Text) (parse : ParseTree) :
    ofParse source parse = assemble source (parse.foldl Layout.visit .empty).nodes := by
  cases parse with
  | nil => rfl
  | cons top rest =>
      have hwalk := ParseTree.nodes_walk top rest [] .empty trivial (Nat.zero_le _) rfl
      exact congrArg (assemble source) hwalk

end HclEdit
