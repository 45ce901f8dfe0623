import HclEdit.Tree.Basic

/-!
Laying out nodes in the order of their first visit. A layout holds the nodes visited so far and
the path of those still entered, innermost first.
-/

namespace HclEdit

structure Layout where
  nodes : Array Node
  path : List NodeId

namespace Layout

def empty : Layout :=
  ⟨#[], []⟩

/-- Appends a node without children below the innermost entered one. Where its subtree ends is told
when all nodes are there. -/
def add (layout : Layout) (kind : String) (span : Span) (named : Bool) : Layout :=
  let id := layout.nodes.size
  match layout.path.head? with
  | none =>
      { layout with nodes := layout.nodes.push ⟨kind, span, named, none, [], 0, id⟩ }
  | some parent =>
      let position := (layout.nodes[parent]?.getD default).children.length
      let linked := layout.nodes.modify parent fun node =>
        { node with children := node.children ++ [id] }
      { layout with nodes := linked.push ⟨kind, span, named, some parent, [], position, id⟩ }

theorem size_add (layout : Layout) (kind : String) (span : Span) (named : Bool) :
    (layout.add kind span named).nodes.size = layout.nodes.size + 1 := by
  unfold add
  split <;> simp

theorem path_add (layout : Layout) (kind : String) (span : Span) (named : Bool) :
    (layout.add kind span named).path = layout.path := by
  unfold add
  split <;> rfl

def enter (layout : Layout) (kind : String) (span : Span) (named : Bool) : Layout :=
  { layout.add kind span named with path := layout.nodes.size :: layout.path }

/-- Leaves the innermost entered node. -/
def leave (layout : Layout) : Layout :=
  { layout with path := layout.path.tail }

end Layout

namespace Tree

/-- Where the subtree of a node ends: where that of its last child does, or right behind a node
without children. -/
def endIn (nodes : Array Node) (id : NodeId) : NodeId :=
  match (nodes[id]?.bind (·.children.getLast?)).bind (nodes[·]?) with
  | none => id + 1
  | some last => last.subtreeEnd

def tellEnd (id : NodeId) (nodes : Array Node) : Array Node :=
  nodes.modify id fun node => { node with subtreeEnd := endIn nodes id }

/-- Tells of every node where its subtree ends, the last node first. -/
def tellEnds (nodes : Array Node) : Array Node :=
  (List.range nodes.size).foldr tellEnd nodes

/-- The tree of nodes that have all been laid out. -/
def assemble (source : Text) (nodes : Array Node) : Tree :=
  ⟨source, tellEnds nodes, _, rfl⟩

end Tree

end HclEdit
