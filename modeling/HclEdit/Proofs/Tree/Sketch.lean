import HclEdit.Proofs.Tree.Arranged

/-!
# What calls describe

Calls that open and close the same nodes describe some nodes with everything below them, whatever
array these end up in. Carrying them out lays out exactly these nodes, beside the ones that were
there before, and leaves everything alone that is not entered.
-/

namespace HclEdit

/-- A node with everything below it, in no array. -/
inductive Sketch where
  | node (kind : String) (span : Span) (below : List Sketch)

def Sketch.kind : Sketch → String
  | .node kind _ _ => kind

def Sketch.span : Sketch → Span
  | .node _ span _ => span

namespace Tree

mutual

/-- Reading the tree from a node on gives the sketch. -/
def Shows (tree : Tree) (id : NodeId) : Sketch → Prop
  | .node kind span below =>
      id < tree.size ∧ tree.kind id = kind ∧ tree.span id = span ∧
        tree.ShowsAll (tree.children id) below

def ShowsAll (tree : Tree) (ids : List NodeId) : List Sketch → Prop
  | [] => ids = []
  | sketch :: sketches =>
      ∃ id rest, ids = id :: rest ∧ tree.Shows id sketch ∧ tree.ShowsAll rest sketches

end

theorem Shows.kind_eq {tree : Tree} {id : NodeId} {sketch : Sketch}
    (hshows : tree.Shows id sketch) :
    tree.kind id = sketch.kind := by
  cases sketch
  exact hshows.2.1

theorem Shows.span_eq {tree : Tree} {id : NodeId} {sketch : Sketch}
    (hshows : tree.Shows id sketch) :
    tree.span id = sketch.span := by
  cases sketch
  exact hshows.2.2.1

theorem ShowsAll.append {tree : Tree} {ids others : List NodeId} {sketches further : List Sketch}
    (hids : tree.ShowsAll ids sketches) (hothers : tree.ShowsAll others further) :
    tree.ShowsAll (ids ++ others) (sketches ++ further) := by
  induction sketches generalizing ids with
  | nil =>
      obtain rfl := hids
      exact hothers
  | cons sketch rest ih =>
      obtain ⟨id, rest, rfl, hshows, hrest⟩ := hids
      exact ⟨id, rest ++ others, rfl, hshows, ih hrest⟩

theorem ShowsAll.length_eq {tree : Tree} {ids : List NodeId} {sketches : List Sketch}
    (hids : tree.ShowsAll ids sketches) : ids.length = sketches.length := by
  induction sketches generalizing ids with
  | nil =>
      obtain rfl := hids
      rfl
  | cons sketch rest ih =>
      obtain ⟨id, rest, rfl, -, hrest⟩ := hids
      exact congrArg Nat.succ (ih hrest)

theorem ShowsAll.exists_of_mem {tree : Tree} {ids : List NodeId} {sketches : List Sketch}
    (hids : tree.ShowsAll ids sketches) {id : NodeId} (hid : id ∈ ids) :
    ∃ sketch ∈ sketches, tree.Shows id sketch := by
  induction sketches generalizing ids with
  | nil =>
      obtain rfl := hids
      exact absurd hid List.not_mem_nil
  | cons sketch rest ih =>
      obtain ⟨first, others, rfl, hshows, hrest⟩ := hids
      rcases List.mem_cons.1 hid with rfl | hid
      · exact ⟨sketch, List.mem_cons_self, hshows⟩
      · obtain ⟨found, hfound, hshown⟩ := ih hrest hid
        exact ⟨found, List.mem_cons_of_mem _ hfound, hshown⟩

theorem ShowsAll.getLast? {tree : Tree} {ids : List NodeId} {sketches : List Sketch}
    (hids : tree.ShowsAll ids sketches) :
    (ids.getLast? = none ∧ sketches.getLast? = none) ∨
      ∃ id sketch, ids.getLast? = some id ∧ sketches.getLast? = some sketch ∧
        tree.Shows id sketch := by
  induction sketches generalizing ids with
  | nil =>
      obtain rfl := hids
      exact .inl ⟨rfl, rfl⟩
  | cons sketch further ih =>
      obtain ⟨id, rest, rfl, hshows, hrest⟩ := hids
      rw [List.getLast?_cons, List.getLast?_cons]
      rcases ih hrest with ⟨hid, hsketch⟩ | ⟨last, lastSketch, hid, hsketch, hlast⟩
      · exact .inr ⟨id, sketch, by rw [hid]; rfl, by rw [hsketch]; rfl, hshows⟩
      · exact .inr ⟨last, lastSketch, by rw [hid]; rfl, by rw [hsketch]; rfl, hlast⟩

end Tree

namespace Draft

/-- Calls that describe some nodes, one beside the other and each with everything below it. -/
inductive Describes : List Call → List Sketch → Prop where
  | nil : Describes [] []
  | leaf {calls : List Call} {sketches : List Sketch} (kind : String) (span : Span)
      (hcalls : Describes calls sketches) :
      Describes (calls ++ [.leaf kind span]) (sketches ++ [.node kind span []])
  | whole {calls inner : List Call} {sketches below : List Sketch} (kind : String) (span : Span)
      (hcalls : Describes calls sketches) (hinner : Describes inner below) :
      Describes (calls ++ .opening kind span :: (inner ++ [.closing]))
        (sketches ++ [.node kind span below])

theorem Describes.eq_nil_iff {calls : List Call} {sketches : List Sketch}
    (hdescribes : Describes calls sketches) : calls = [] ↔ sketches = [] := by
  cases hdescribes with
  | nil => simp
  | leaf => simp
  | whole => simp

end Draft

/-! ### What a call leaves alone -/

namespace Layout

/-- A later state of a layout. Nodes are only added, and only entered ones get more children. -/
structure Extends (later earlier : Layout) : Prop where
  size_le : earlier.nodes.size ≤ later.nodes.size
  kind_eq : ∀ id < earlier.nodes.size, (later.node id).kind = (earlier.node id).kind
  span_eq : ∀ id < earlier.nodes.size, (later.node id).span = (earlier.node id).span
  parent_eq : ∀ id < earlier.nodes.size, (later.node id).parent = (earlier.node id).parent
  children_eq : ∀ id < earlier.nodes.size, id ∉ earlier.path →
    (later.node id).children = (earlier.node id).children
  left : ∀ id < earlier.nodes.size, id ∉ earlier.path → id ∉ later.path

theorem Extends.refl (layout : Layout) : layout.Extends layout where
  size_le := Nat.le_refl _
  kind_eq := fun _ _ => rfl
  span_eq := fun _ _ => rfl
  parent_eq := fun _ _ => rfl
  children_eq := fun _ _ _ => rfl
  left := fun _ _ hid => hid

theorem Extends.trans {last later earlier : Layout} (hlast : last.Extends later)
    (hlater : later.Extends earlier) : last.Extends earlier where
  size_le := Nat.le_trans hlater.size_le hlast.size_le
  kind_eq := fun id hid =>
    (hlast.kind_eq id (Nat.lt_of_lt_of_le hid hlater.size_le)).trans (hlater.kind_eq id hid)
  span_eq := fun id hid =>
    (hlast.span_eq id (Nat.lt_of_lt_of_le hid hlater.size_le)).trans (hlater.span_eq id hid)
  parent_eq := fun id hid =>
    (hlast.parent_eq id (Nat.lt_of_lt_of_le hid hlater.size_le)).trans (hlater.parent_eq id hid)
  children_eq := fun id hid hleft =>
    (hlast.children_eq id (Nat.lt_of_lt_of_le hid hlater.size_le)
      (hlater.left id hid hleft)).trans (hlater.children_eq id hid hleft)
  left := fun id hid hleft =>
    hlast.left id (Nat.lt_of_lt_of_le hid hlater.size_le) (hlater.left id hid hleft)

theorem extends_add (layout : Layout) (kind : String) (span : Span) (named : Bool) :
    (layout.add kind span named).Extends layout where
  size_le := by
    rw [size_add]
    exact Nat.le_succ _
  kind_eq := by
    intro id hid
    rw [node_add_of_lt kind span named hid]
    split <;> rfl
  span_eq := fun _ hid => span_add_of_lt kind span named hid
  parent_eq := fun _ hid => parent_add_of_lt kind span named hid
  children_eq := by
    intro id hid hleft
    rw [node_add_of_lt kind span named hid, if_neg]
    exact fun hhead => hleft (List.mem_of_mem_head? hhead)
  left := by
    intro id _ hleft
    rw [path_add]
    exact hleft

theorem extends_enter (layout : Layout) (kind : String) (span : Span) (named : Bool) :
    (layout.enter kind span named).Extends layout :=
  have hadd := layout.extends_add kind span named
  { hadd with
    left := fun _ hid hleft hmem =>
      (List.mem_cons.1 hmem).elim (Nat.ne_of_lt hid) hleft }

theorem extends_leave (layout : Layout) : layout.leave.Extends layout where
  size_le := Nat.le_refl _
  kind_eq := fun _ _ => rfl
  span_eq := fun _ _ => rfl
  parent_eq := fun _ _ => rfl
  children_eq := fun _ _ _ => rfl
  left := fun _ _ hleft hmem => hleft (List.mem_of_mem_tail hmem)

/-- The nodes beside which the next one is put. -/
def current (layout : Layout) : List NodeId :=
  (List.range layout.nodes.size).filter fun id => (layout.node id).parent = layout.path.head?

theorem Linked.current_eq_children {layout : Layout} (hlinked : layout.Linked) {parent : NodeId}
    (hparent : layout.path.head? = some parent) :
    layout.current = (layout.node parent).children := by
  rw [hlinked.children_eq, current, hparent]

theorem Linked.current_enter {layout : Layout} (hlinked : layout.Linked) (kind : String)
    (span : Span) (named : Bool) : (layout.enter kind span named).current = [] := by
  rw [(hlinked.enter kind span named).current_eq_children rfl]
  obtain ⟨position, hnode⟩ := layout.node_add_self kind span named
  exact congrArg Node.children hnode

/-- When one node has been put in place, with all the others below it, there is one more beside
which the next is put. -/
theorem Extends.current_eq {later earlier : Layout} (hextends : later.Extends earlier)
    (hpath : later.path = earlier.path) (hlt : earlier.nodes.size < later.nodes.size)
    (hplaced : (later.node earlier.nodes.size).parent = earlier.path.head?)
    (hhead : ∀ parent, earlier.path.head? = some parent → parent < earlier.nodes.size)
    (hbelow : ∀ id, earlier.nodes.size < id → id < later.nodes.size →
      ∃ parent, (later.node id).parent = some parent ∧ earlier.nodes.size ≤ parent) :
    later.current = earlier.current ++ [earlier.nodes.size] := by
  obtain ⟨count, hcount⟩ := Nat.exists_eq_add_of_lt hlt
  have hrange : List.range later.nodes.size = List.range earlier.nodes.size ++
      earlier.nodes.size :: List.range' (earlier.nodes.size + 1) count := by
    rw [hcount, Nat.add_assoc, List.range_eq_range', ← List.range'_append_1, List.range'_succ,
      ← List.range_eq_range', Nat.zero_add]
  have hbefore : (List.range earlier.nodes.size).filter
      (fun id => (later.node id).parent = earlier.path.head?) = earlier.current := by
    refine List.filter_congr fun id hid => ?_
    rw [hextends.parent_eq id (List.mem_range.1 hid)]
  have hbehind : (List.range' (earlier.nodes.size + 1) count).filter
      (fun id => (later.node id).parent = earlier.path.head?) = [] := by
    refine List.filter_eq_nil_iff.2 fun id hid => ?_
    obtain ⟨hfirst, hlast⟩ := List.mem_range'_1.1 hid
    obtain ⟨parent, hparent, hle⟩ := hbelow id hfirst
      (Nat.lt_of_lt_of_eq hlast (by rw [hcount]; exact Nat.add_right_comm _ 1 count))
    rw [decide_eq_true_iff, hparent]
    exact fun hsame => absurd (hhead parent hsame.symm) (Nat.not_lt_of_le hle)
  rw [current, hrange, List.filter_append, hpath, hbefore, List.filter_cons, hplaced, hbehind]
  simp

end Layout

namespace Draft

/-- The nodes described so far, over the source; where their subtrees end has not been told. -/
def soFar (draft : Draft) : Tree :=
  ⟨draft.source, draft.layout.nodes, _, rfl⟩

theorem extends_call (draft : Draft) (next : Call) :
    (draft.call next).layout.Extends draft.layout := by
  cases next with
  | opening kind span => exact draft.layout.extends_enter kind span true
  | leaf kind span => exact draft.layout.extends_add kind span true
  | closing => exact draft.layout.extends_leave

theorem extends_foldl_call (draft : Draft) (calls : List Call) :
    (calls.foldl Draft.call draft).layout.Extends draft.layout := by
  induction calls generalizing draft with
  | nil => exact .refl draft.layout
  | cons next rest ih => exact (ih (draft.call next)).trans (draft.extends_call next)

/-! ### What stays in view -/

mutual

/-- What lies below a node that has been left stays as it is. -/
theorem shows_of_extends {later earlier : Draft} (hextends : later.layout.Extends earlier.layout)
    (harranged : earlier.layout.Arranged) : ∀ (sketch : Sketch) (id : NodeId),
    id ∉ earlier.layout.path → earlier.soFar.Shows id sketch → later.soFar.Shows id sketch
  | .node kind span below, id, hleft, ⟨hid, hkind, hspan, hbelow⟩ => by
      refine ⟨Nat.lt_of_lt_of_le hid hextends.size_le, (hextends.kind_eq id hid).trans hkind,
        (hextends.span_eq id hid).trans hspan, ?_⟩
      have hchildren : later.soFar.children id = earlier.soFar.children id :=
        hextends.children_eq id hid hleft
      rw [hchildren]
      refine showsAll_of_extends hextends harranged below _ (fun child hchild hmem => ?_) hbelow
      have hparent := harranged.toLinked.mem_children_iff.1 hchild
      exact hleft (harranged.path_closed child hmem id hparent)

theorem showsAll_of_extends {later earlier : Draft}
    (hextends : later.layout.Extends earlier.layout) (harranged : earlier.layout.Arranged) :
    ∀ (sketches : List Sketch) (ids : List NodeId), (∀ id ∈ ids, id ∉ earlier.layout.path) →
      earlier.soFar.ShowsAll ids sketches → later.soFar.ShowsAll ids sketches
  | [], _, _, hids => hids
  | sketch :: sketches, _, hleft, ⟨id, rest, hids, hshows, hrest⟩ => by
      subst hids
      rw [List.forall_mem_cons] at hleft
      exact ⟨id, rest, rfl, shows_of_extends hextends harranged sketch id hleft.1 hshows,
        showsAll_of_extends hextends harranged sketches rest hleft.2 hrest⟩

end

/-! ### What described calls lay out -/

/-- After the calls the same nodes are entered as before, and the sketched nodes stand beside those
that the next one would have been put beside. -/
structure LaysOut (later earlier : Draft) (sketches : List Sketch) : Prop where
  path_eq : later.layout.path = earlier.layout.path
  shown : ∃ ids, later.layout.current = earlier.layout.current ++ ids ∧
    (∀ id ∈ ids, id ∉ later.layout.path) ∧ later.soFar.ShowsAll ids sketches

section Add

variable {draft earlier : Draft} {sketches : List Sketch} (harranged : draft.layout.Arranged)
include harranged

/-- What has been laid out stays in view when one more node is put beside it. -/
theorem LaysOut.snoc (hlaid : draft.LaysOut earlier sketches) {later : Draft} {sketch : Sketch}
    (hextends : later.layout.Extends draft.layout) (hpath : later.layout.path = draft.layout.path)
    (hadded : later.layout.current = draft.layout.current ++ [draft.layout.nodes.size])
    (hshown : later.soFar.Shows draft.layout.nodes.size sketch) :
    later.LaysOut earlier (sketches ++ [sketch]) := by
  obtain ⟨ids, hcurrent, hleft, hshows⟩ := hlaid.shown
  refine ⟨hpath.trans hlaid.path_eq, ids ++ [draft.layout.nodes.size], ?_, ?_, ?_⟩
  · rw [hadded, hcurrent, List.append_assoc]
  · rw [hpath]
    intro id hid hmem
    rcases List.mem_append.1 hid with hid | hid
    · exact hleft id hid hmem
    · rw [List.mem_singleton.1 hid] at hmem
      exact Nat.lt_irrefl _ (harranged.path_lt _ hmem)
  · have hkept := showsAll_of_extends hextends harranged sketches ids hleft hshows
    exact hkept.append ⟨_, [], rfl, hshown, rfl⟩

variable (kind : String) (span : Span)

theorem LaysOut.leaf (hlaid : draft.LaysOut earlier sketches) :
    (draft.call (.leaf kind span)).LaysOut earlier (sketches ++ [.node kind span []]) := by
  have hextends := draft.extends_call (.leaf kind span)
  have hsize : (draft.call (.leaf kind span)).layout.nodes.size = draft.layout.nodes.size + 1 :=
    Layout.size_add draft.layout kind span true
  have hpath : (draft.call (.leaf kind span)).layout.path = draft.layout.path :=
    Layout.path_add draft.layout kind span true
  obtain ⟨position, hnode⟩ := draft.layout.node_add_self kind span true
  refine hlaid.snoc harranged hextends hpath ?current ?shown
  case current =>
    apply hextends.current_eq hpath (hsize ▸ Nat.lt_succ_self _)
      (Layout.parent_add_self kind span true) (fun _ => harranged.toLinked.head?_lt)
    intro id hlt hid
    exact absurd (Nat.lt_of_lt_of_eq hid hsize) (Nat.not_lt_of_le hlt)
  case shown =>
    exact ⟨Nat.lt_of_lt_of_eq (Nat.lt_succ_self _) hsize.symm, congrArg Node.kind hnode,
      congrArg Node.span hnode, congrArg Node.children hnode⟩

/-! A node that has been opened, filled and closed again. -/

variable {kind span} {filled : Draft} {below : List Sketch} (hfilled : filled.layout.Arranged)
  (hextends : filled.layout.Extends (draft.call (.opening kind span)).layout)
  (hinner : filled.LaysOut (draft.call (.opening kind span)) below)
include hinner

omit harranged in
theorem LaysOut.path_closed : (filled.call .closing).layout.path = draft.layout.path := by
  have hleave : (filled.call .closing).layout.path = filled.layout.path.tail := rfl
  rw [hleave, hinner.path_eq]
  rfl

include hfilled hextends

theorem LaysOut.current_closed : (filled.call .closing).layout.current =
    draft.layout.current ++ [draft.layout.nodes.size] := by
  have hclosed := filled.extends_call .closing
  have hopened := draft.extends_call (.opening kind span)
  have hnew : draft.layout.nodes.size < (draft.call (.opening kind span)).layout.nodes.size :=
    Nat.lt_of_lt_of_eq (Nat.lt_succ_self _) (Layout.size_add draft.layout kind span true).symm
  apply ((hclosed.trans hextends).trans hopened).current_eq hinner.path_closed
  · exact Nat.lt_of_lt_of_le hnew hextends.size_le
  · exact ((hclosed.trans hextends).parent_eq _ hnew).trans
      (Layout.parent_add_self kind span true)
  · exact fun _ => harranged.toLinked.head?_lt
  -- Until it is closed, the new node holds everything laid out behind it.
  · intro id hfirst hlast
    have hentered : draft.layout.nodes.size ∈ filled.layout.path := by
      rw [hinner.path_eq]
      exact List.mem_cons_self
    exact hfilled.entered _ hentered id hfirst hlast

theorem LaysOut.shows_closed :
    (filled.call .closing).soFar.Shows draft.layout.nodes.size (.node kind span below) := by
  obtain ⟨children, hchildren, hleft, hshows⟩ := hinner.shown
  have hclosed := filled.extends_call .closing
  have hnew : draft.layout.nodes.size < (draft.call (.opening kind span)).layout.nodes.size :=
    Nat.lt_of_lt_of_eq (Nat.lt_succ_self _) (Layout.size_add draft.layout kind span true).symm
  have hbelow : (filled.call .closing).soFar.children draft.layout.nodes.size = children := by
    calc (filled.layout.node draft.layout.nodes.size).children
        = filled.layout.current :=
          (hfilled.toLinked.current_eq_children (by rw [hinner.path_eq]; rfl)).symm
      _ = (draft.layout.enter kind span true).current ++ children := hchildren
      _ = children := by rw [harranged.toLinked.current_enter kind span true, List.nil_append]
  obtain ⟨position, hnode⟩ := draft.layout.node_add_self kind span true
  refine ⟨?size, ?kind, ?span, ?below⟩
  case size => exact Nat.lt_of_lt_of_le hnew (hclosed.trans hextends).size_le
  case kind => exact ((hclosed.trans hextends).kind_eq _ hnew).trans (congrArg Node.kind hnode)
  case span => exact ((hclosed.trans hextends).span_eq _ hnew).trans (congrArg Node.span hnode)
  case below =>
    rw [hbelow]
    exact showsAll_of_extends hclosed hfilled below children hleft hshows

theorem LaysOut.whole (hlaid : draft.LaysOut earlier sketches) :
    (filled.call .closing).LaysOut earlier (sketches ++ [.node kind span below]) := by
  have hall := ((filled.extends_call .closing).trans hextends).trans
    (draft.extends_call (.opening kind span))
  exact hlaid.snoc harranged hall hinner.path_closed
    (hinner.current_closed harranged hfilled hextends)
    (hinner.shows_closed harranged hfilled hextends)

end Add

/-- **Described calls lay out what they describe.** -/
theorem Describes.laysOut {calls : List Call} {sketches : List Sketch}
    (hdescribes : Describes calls sketches) {draft : Draft} (harranged : draft.layout.Arranged) :
    (calls.foldl Draft.call draft).LaysOut draft sketches := by
  induction hdescribes generalizing draft with
  | nil => exact ⟨rfl, [], (List.append_nil _).symm, nofun, rfl⟩
  | leaf kind span hcalls ih =>
      rw [List.foldl_append]
      exact (ih harranged).leaf (arranged_foldl_call harranged _) kind span
  | @whole calls inner sketches below kind span hcalls hinner ih ihInner =>
      have hbefore := arranged_foldl_call harranged calls
      have hopened := arranged_call hbefore (.opening kind span)
      rw [List.foldl_append, List.foldl_cons, List.foldl_append]
      exact (ihInner hopened).whole hbefore (arranged_foldl_call hopened inner)
        (extends_foldl_call _ inner) (ih harranged)

end Draft

end HclEdit
