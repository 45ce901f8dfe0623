import HclEdit.Proofs.Tree.NestedParse

/-!
# Parses told call by call

A draft can be told of the nodes of a parse one by one: close until the next node is in place, then
open it. If the spans of the parse nest, no call breaks a rule, and the tree that is built is the
one read off the parse, except that all its nodes are named.
-/

namespace HclEdit

namespace ParseTree

/-- The calls for the rest of a parse while `opened` nodes are open. -/
def callsFrom (opened : Nat) : ParseTree → List Draft.Call
  | [] => List.replicate opened .closing
  | node :: rest =>
      List.replicate (opened - node.depth) .closing ++
        .opening node.kind node.span :: callsFrom (min opened node.depth + 1) rest

def calls (parse : ParseTree) : List Draft.Call :=
  callsFrom 0 parse

end ParseTree

def Node.asNamed (node : Node) : Node :=
  { node with named := true }

/-- The same tree with all nodes named. -/
def Tree.allNamed (tree : Tree) : Tree :=
  { tree with nodes := tree.nodes.map Node.asNamed }

namespace Layout

def allNamed (layout : Layout) : Layout :=
  { layout with nodes := layout.nodes.map Node.asNamed }

/-! ### Naming every node -/

theorem map_asNamed_modify (nodes : Array Node) (id : NodeId) {change : Node → Node}
    (hchange : ∀ node, (change node).asNamed = change node.asNamed) :
    (nodes.modify id change).map Node.asNamed = (nodes.map Node.asNamed).modify id change := by
  apply Array.ext
  · simp
  · intro index hleft hright
    rw [Array.getElem_map, Array.getElem_modify, Array.getElem_modify, Array.getElem_map]
    split
    · exact hchange _
    · rfl

theorem allNamed_add (layout : Layout) (kind : String) (span : Span) (named : Bool) :
    (layout.add kind span named).allNamed = layout.allNamed.add kind span true := by
  unfold add
  cases hhead : layout.path.head? with
  | none => simp [allNamed, hhead, Node.asNamed]
  | some parent =>
      have hposition : ((layout.nodes.map Node.asNamed)[parent]?.getD default).children =
          (layout.nodes[parent]?.getD default).children := by
        rw [Array.getElem?_map]
        cases layout.nodes[parent]? <;> rfl
      simp only [allNamed, hhead, Array.size_map, Array.map_push, hposition]
      rw [map_asNamed_modify]
      · rfl
      · intro node
        rfl

theorem allNamed_enter (layout : Layout) (kind : String) (span : Span) (named : Bool) :
    (layout.enter kind span named).allNamed = layout.allNamed.enter kind span true := by
  have hadd := congrArg Layout.nodes (layout.allNamed_add kind span named)
  have hsize : layout.allNamed.nodes.size = layout.nodes.size := Array.size_map
  unfold enter
  rw [hsize]
  exact congrArg (Layout.mk · (layout.nodes.size :: layout.path)) hadd

theorem allNamed_empty : Layout.empty.allNamed = Layout.empty := by
  simp [allNamed, empty]

theorem span_allNamed (layout : Layout) (id : NodeId) :
    (layout.allNamed.node id).span = (layout.node id).span := by
  unfold node allNamed Tree.nodeAt
  rw [Array.getElem?_map]
  cases layout.nodes[id]? <;> rfl

theorem children_allNamed (layout : Layout) (id : NodeId) :
    (layout.allNamed.node id).children = (layout.node id).children := by
  unfold node allNamed Tree.nodeAt
  rw [Array.getElem?_map]
  cases layout.nodes[id]? <;> rfl

theorem Fits.allNamed {layout : Layout} {span : Span} (hfits : layout.Fits span) :
    layout.allNamed.Fits span where
  proper := hfits.proper
  first := by
    intro hpath
    rw [Layout.allNamed, Array.size_map]
    exact hfits.first hpath
  within := by
    intro parent hparent
    rw [span_allNamed]
    exact hfits.within parent hparent
  behind := by
    intro parent hparent sibling hsibling
    rw [children_allNamed] at hsibling
    rw [span_allNamed]
    exact hfits.behind parent hparent sibling hsibling

end Layout

/-! ### Telling the ends -/

namespace Tree

theorem endIn_map_asNamed (nodes : Array Node) (id : NodeId) :
    endIn (nodes.map Node.asNamed) id = endIn nodes id := by
  have hchildren : (nodeAt (nodes.map Node.asNamed) id).children = (nodeAt nodes id).children :=
    Layout.children_allNamed ⟨nodes, []⟩ id
  rw [endIn_eq_elim, endIn_eq_elim, hchildren]
  cases (nodeAt nodes id).children.getLast? with
  | none => rfl
  | some last =>
      rw [Option.bind_some, Option.bind_some, Array.getElem?_map]
      cases nodes[last]? <;> rfl

theorem map_asNamed_foldr_tellEnd (nodes : Array Node) (count : Nat) :
    (List.range count).foldr tellEnd (nodes.map Node.asNamed) =
      ((List.range count).foldr tellEnd nodes).map Node.asNamed := by
  induction count generalizing nodes with
  | zero => rfl
  | succ count ih =>
      have htell : tellEnd count (nodes.map Node.asNamed) =
          (tellEnd count nodes).map Node.asNamed := by
        unfold tellEnd
        rw [endIn_map_asNamed]
        refine (Layout.map_asNamed_modify nodes count fun node => ?_).symm
        rfl
      rw [foldr_tellEnd_succ, foldr_tellEnd_succ, htell, ih]

/-- The ends do not depend on which nodes are named. -/
theorem allNamed_assemble (source : Text) (nodes : Array Node) :
    assemble source (nodes.map Node.asNamed) = (assemble source nodes).allNamed := by
  have htell := map_asNamed_foldr_tellEnd nodes nodes.size
  unfold assemble allNamed tellEnds
  simp only [Array.size_map, htell]

end Tree

/-! ### Telling a draft -/

theorem Layout.leave_enter (layout : Layout) (kind : String) (span : Span) (named : Bool) :
    (layout.enter kind span named).leave = layout.add kind span named := by
  have hpath := layout.path_add kind span named
  calc (layout.enter kind span named).leave
      = ⟨(layout.add kind span named).nodes, layout.path⟩ := rfl
    _ = layout.add kind span named := by rw [← hpath]

namespace Draft

theorem source_foldl_call (draft : Draft) (calls : List Call) :
    (calls.foldl Draft.call draft).source = draft.source := by
  induction calls generalizing draft with
  | nil => rfl
  | cons next rest ih => exact ih (draft.call next)

theorem spanError?_eq_none {draft : Draft} {span : Span} (hlies : LiesIn draft.source span)
    (hfits : draft.layout.Fits span) : draft.spanError? span = none := by
  unfold spanError?
  dsimp only
  rw [if_neg (liesIn_iff.1 hlies)]
  split
  · next hhead =>
      have hempty : draft.layout.nodes.isEmpty = true := by simpa using hfits.first hhead
      rw [hempty]
      rfl
  · next parent hhead =>
      have hwithin : span.Within (draft.layout.nodes[parent]?.getD default).span :=
        hfits.within parent hhead
      rw [if_neg (not_not_intro hwithin)]
      split
      · rfl
      · next sibling hlast =>
          have hbehind := hfits.behind parent hhead sibling hlast
          exact if_neg (Nat.not_lt_of_le hbehind)

/-- Closes nodes until no more than `depth` are open. -/
def closeTo (draft : Draft) (depth : Nat) : Draft :=
  (List.replicate (draft.layout.path.length - depth) Call.closing).foldl Draft.call draft

theorem layout_foldl_closing (draft : Draft) (times : Nat) :
    ((List.replicate times Call.closing).foldl Draft.call draft).layout =
      { draft.layout with path := draft.layout.path.drop times } := by
  induction times generalizing draft with
  | zero => rfl
  | succ times ih =>
      refine (ih (draft.call .closing)).trans ?_
      exact congrArg (Layout.mk draft.layout.nodes) List.drop_tail

theorem error_foldl_closing {draft : Draft} (herror : draft.error = none) {times : Nat}
    (htimes : times ≤ draft.layout.path.length) :
    ((List.replicate times Call.closing).foldl Draft.call draft).error = none := by
  induction times generalizing draft with
  | zero => exact herror
  | succ times ih =>
      have hpath : (draft.call .closing).layout.path = draft.layout.path.tail := rfl
      have hne : draft.layout.path ≠ [] := List.length_pos_iff.1 (by omega)
      rw [List.replicate_succ, List.foldl_cons]
      apply ih
      · rw [error_call, herror]
        simp [callError?, hne]
      · rw [hpath, List.length_tail]
        omega

theorem layout_closeTo (draft : Draft) (depth : Nat) :
    (draft.closeTo depth).layout = draft.layout.leaveTo depth :=
  draft.layout_foldl_closing _

theorem error_closeTo {draft : Draft} (herror : draft.error = none) (depth : Nat) :
    (draft.closeTo depth).error = none :=
  error_foldl_closing herror (Nat.sub_le _ _)

/-! ### The nodes of a parse one by one -/

/-- Tells a draft of the next node of a parse. -/
def tell (draft : Draft) (node : ParseNode) : Draft :=
  (draft.closeTo node.depth).call (.opening node.kind node.span)

theorem source_tell (draft : Draft) (node : ParseNode) : (draft.tell node).source = draft.source :=
  draft.source_foldl_call _

/-- The calls for a parse tell of its nodes and close what is still open then. -/
theorem foldl_callsFrom (draft : Draft) (parse : ParseTree) :
    (parse.callsFrom draft.layout.path.length).foldl Draft.call draft =
      (parse.foldl tell draft).closeTo 0 := by
  induction parse generalizing draft with
  | nil => rfl
  | cons node rest ih =>
      have hpath : (draft.tell node).layout.path.length =
          (draft.closeTo node.depth).layout.path.length + 1 := rfl
      have hlength : (draft.tell node).layout.path.length =
          min draft.layout.path.length node.depth + 1 := by
        rw [hpath, layout_closeTo, Layout.length_path_leaveTo]
      rw [ParseTree.callsFrom, List.foldl_append, List.foldl_cons, ← hlength]
      exact ih (draft.tell node)

section Tell

variable {draft : Draft} {layout : Layout} (hlayout : draft.layout = layout.allNamed)
include hlayout

theorem layout_closeTo_allNamed (depth : Nat) :
    (draft.closeTo depth).layout = (layout.leaveTo depth).allNamed := by
  rw [layout_closeTo, hlayout]
  rfl

theorem layout_tell (node : ParseNode) :
    (draft.tell node).layout = (layout.visit node).allNamed := by
  rw [tell, call, layout_closeTo_allNamed hlayout]
  exact (Layout.allNamed_enter _ _ _ _).symm

theorem layout_foldl_tell (parse : ParseTree) :
    (parse.foldl tell draft).layout = (parse.foldl Layout.visit layout).allNamed := by
  induction parse generalizing draft layout with
  | nil => exact hlayout
  | cons node rest ih => exact ih (layout_tell hlayout node)

variable {before rest : ParseTree} {node : ParseNode} (herror : draft.error = none)
  (hfollows : layout.Follows before) (hlinked : layout.Linked)
include herror hfollows hlinked

theorem error_tell (hnested : ParseTree.IsNested draft.source (before ++ node :: rest))
    (hdepth : node.depth ≤ layout.path.length) (hfirst : node.depth = 0 → before = []) :
    (draft.tell node).error = none := by
  have hlength : (layout.leaveTo node.depth).path.length = node.depth := by
    rw [Layout.length_path_leaveTo]
    omega
  have hfits : (layout.leaveTo node.depth).Fits node.span := by
    apply (hfollows.leaveTo _).fits (hlinked.leaveTo _) hnested hlength.symm
    intro hempty
    apply hfirst
    rw [← hlength]
    exact congrArg List.length hempty
  rw [tell, error_call, error_closeTo herror, Option.none_or]
  apply spanError?_eq_none
  · rw [closeTo, source_foldl_call]
    exact hnested.of_append.1
  · rw [layout_closeTo_allNamed hlayout]
    exact hfits.allNamed

theorem error_foldl_tell {depth : Nat} (hdepth : layout.path.length = depth + 1)
    (hcontinues : ParseTree.Continues depth rest)
    (hnested : ParseTree.IsNested draft.source (before ++ rest)) :
    (rest.foldl tell draft).error = none := by
  induction rest generalizing draft layout before depth with
  | nil => exact herror
  | cons node rest ih =>
      obtain ⟨hpos, hle, hrest⟩ := hcontinues
      rw [← hdepth] at hle
      have hsplit : before ++ node :: rest = before ++ [node] ++ rest := by simp
      apply ih (layout_tell hlayout node)
      · apply error_tell hlayout herror hfollows hlinked hnested hle
        intro hzero
        exact absurd hzero (Nat.ne_of_gt hpos)
      · exact hfollows.visit hle
      · exact hlinked.visit node
      · rw [Layout.length_path_visit, Nat.min_eq_right hle]
      · exact hrest
      · rw [source_tell, ← hsplit]
        exact hnested

end Tell

/-- Opening a node and closing it at once is adding a leaf. -/
theorem call_opening_closing (draft : Draft) (kind : String) (span : Span) :
    (draft.call (.opening kind span)).call .closing = draft.call (.leaf kind span) := by
  have hlayout := draft.layout.leave_enter kind span true
  have herror : ((draft.call (.opening kind span)).call .closing).error =
      (draft.call (.leaf kind span)).error := Option.or_none
  simp only [call] at herror ⊢
  rw [hlayout, herror]

theorem foldl_opening_closing (draft : Draft) (before rest : List Call) (kind : String)
    (span : Span) :
    (before ++ .opening kind span :: .closing :: rest).foldl Draft.call draft =
      (before ++ .leaf kind span :: rest).foldl Draft.call draft := by
  rw [List.foldl_append, List.foldl_append, List.foldl_cons, List.foldl_cons, List.foldl_cons,
    call_opening_closing]

end Draft

namespace ParseTree

variable {source : Text} {parse : ParseTree}

theorem after_calls (source : Text) (parse : ParseTree) :
    Draft.after source parse.calls = (parse.foldl Draft.tell (.new source)).closeTo 0 :=
  Draft.foldl_callsFrom (.new source) parse

theorem layout_new (source : Text) : (Draft.new source).layout = Layout.empty.allNamed :=
  Layout.allNamed_empty.symm

theorem layout_after_calls (source : Text) (parse : ParseTree) :
    (Draft.after source parse.calls).layout =
      ((parse.foldl Layout.visit .empty).leaveTo 0).allNamed := by
  rw [after_calls]
  exact Draft.layout_closeTo_allNamed (Draft.layout_foldl_tell (layout_new source) parse) 0

theorem error_after_calls (hpreorder : parse.IsPreorder) (hnested : parse.IsNested source) :
    (Draft.after source parse.calls).error = none := by
  rw [after_calls]
  apply Draft.error_closeTo
  cases parse with
  | nil => exact hpreorder.elim
  | cons top rest =>
      obtain ⟨htop, hrest⟩ := hpreorder
      have hdepth : top.depth ≤ Layout.empty.path.length := Nat.le_of_eq htop
      have hnew := layout_new source
      rw [List.foldl_cons]
      apply Draft.error_foldl_tell (Draft.layout_tell hnew top)
      · apply Draft.error_tell hnew rfl Layout.follows_empty Layout.linked_empty hnested hdepth
        intro _
        rfl
      · exact Layout.follows_empty.visit hdepth
      · exact Layout.linked_empty.visit top
      · rw [Layout.length_path_visit, Nat.min_eq_right hdepth]
      · exact hrest
      · rw [Draft.source_tell]
        exact hnested

theorem build_calls (hpreorder : parse.IsPreorder) (hnested : parse.IsNested source) :
    Tree.build source parse.calls = .ok (Tree.ofParse source parse).allNamed := by
  have hlayout := layout_after_calls source parse
  have hnodes : (Draft.after source parse.calls).layout.nodes =
      (parse.foldl Layout.visit .empty).nodes.map Node.asNamed := congrArg Layout.nodes hlayout
  apply Draft.finish_eq_ok_iff.2
  refine ⟨error_after_calls hpreorder hnested, ?path, ?size, ?tree⟩
  case path =>
    refine (congrArg Layout.path hlayout).trans ?_
    exact List.drop_length
  case size =>
    have hsize := (Tree.arranged_ofParse source hpreorder).nonempty
    rw [Tree.ofParse_eq_assemble, Tree.size_assemble] at hsize
    exact Nat.lt_of_lt_of_eq hsize ((congrArg Array.size hnodes).trans Array.size_map).symm
  case tree =>
    have hsource := Draft.source_after source parse.calls
    change Tree.assemble (Draft.after source parse.calls).source
      (Draft.after source parse.calls).layout.nodes = _
    rw [hsource, hnodes, Tree.allNamed_assemble, Tree.ofParse_eq_assemble]

end ParseTree

namespace Tree

theorem parent?_allNamed (tree : Tree) (id : NodeId) :
    tree.allNamed.parent? id = tree.parent? id := by
  unfold parent? node node? allNamed
  rw [Array.getElem?_map]
  cases tree.nodes[id]? <;> rfl

/-- **A nested parse makes a nested tree.** -/
theorem nested_ofParse {source : Text} {parse : ParseTree} (hpreorder : parse.IsPreorder)
    (hnested : parse.IsNested source) : (ofParse source parse).Nested := by
  have hnamed := nested_build (ParseTree.build_calls hpreorder hnested)
  have hspan : ∀ id, (ofParse source parse).allNamed.span id = (ofParse source parse).span id :=
    Layout.span_allNamed ⟨(ofParse source parse).nodes, []⟩
  have hchildren : ∀ id,
      (ofParse source parse).allNamed.children id = (ofParse source parse).children id :=
    Layout.children_allNamed ⟨(ofParse source parse).nodes, []⟩
  have hsize : (ofParse source parse).allNamed.size = (ofParse source parse).size := Array.size_map
  refine ⟨linked_ofParse source parse, fun id => ?proper, ?within, fun id => ?ordered, ?rooted⟩
  case proper => exact hspan id ▸ hnamed.proper id
  case within =>
    intro id parent hparent
    rw [← parent?_allNamed] at hparent
    rw [← hspan, ← hspan]
    exact hnamed.within id parent hparent
  case ordered =>
    have hordered := hnamed.ordered id
    rw [hchildren] at hordered
    refine hordered.imp fun {left right} hle => ?_
    rw [← hspan, ← hspan]
    exact hle
  case rooted =>
    intro id hid hparent
    rw [← hsize] at hid
    rw [← parent?_allNamed] at hparent
    exact hnamed.rooted id hid hparent

/-- **Both ways of making a tree agree.** A nested parse told call by call is accepted, and the tree
that is built is the one read off the parse with all nodes named. A leaf may be added at once or
opened and closed. -/
theorem build_replays_parse (source : Text) :
    (∀ parse : ParseTree, parse.IsPreorder → parse.IsNested source →
      Tree.build source parse.calls = .ok (Tree.ofParse source parse).allNamed) ∧
    ∀ (before rest : List Draft.Call) (kind : String) (span : Span),
      Tree.build source (before ++ .opening kind span :: .closing :: rest) =
        Tree.build source (before ++ .leaf kind span :: rest) := by
  constructor
  · intro parse hpreorder hnested
    exact ParseTree.build_calls hpreorder hnested
  · intro before rest kind span
    exact congrArg Draft.finish (Draft.foldl_opening_closing _ before rest kind span)

/-- A block whose body is empty, and a sign that is not named three levels further out. -/
def climbingParse : ParseTree :=
  [ ⟨0, "config_file", ⟨0, 6⟩, true, false, false, false⟩,
    ⟨1, "body", ⟨0, 4⟩, true, false, false, false⟩,
    ⟨2, "block", ⟨0, 4⟩, true, false, false, false⟩,
    ⟨3, "identifier", ⟨0, 1⟩, true, false, false, false⟩,
    ⟨3, "body", ⟨3, 3⟩, true, false, false, false⟩,
    ⟨1, "=", ⟨5, 6⟩, false, false, false, false⟩ ]

theorem build_climbingParse :
    climbingParse.IsPreorder ∧ climbingParse.IsNested "a {}\n=".toList ∧
      Tree.build "a {}\n=".toList climbingParse.calls =
        .ok (ofParse "a {}\n=".toList climbingParse).allNamed ∧
      (ofParse "a {}\n=".toList climbingParse).children root = [1, 5] := by
  have hpreorder : climbingParse.IsPreorder := by
    simp [climbingParse, ParseTree.IsPreorder, ParseTree.Continues]
  have hlength : Text.byteLength "a {}\n=".toList = 6 := rfl
  have hnested : climbingParse.IsNested "a {}\n=".toList := by
    simp only [climbingParse, ParseTree.IsNested, Draft.LiesIn, hlength]
    decide
  exact ⟨hpreorder, hnested, (build_replays_parse _).1 _ hpreorder hnested, rfl⟩

end Tree

end HclEdit
