import HclEdit.Lines

/-!
Syntax trees over a source text. The nodes lie in one array in the order of their first visit, so
a node comes before everything below it and its descendants are the nodes right after it.
-/

namespace HclEdit

abbrev NodeId := Nat

structure Node where
  kind : String
  span : Span
  named : Bool
  parent : Option NodeId
  children : List NodeId
  position : Nat
  subtreeEnd : NodeId
deriving DecidableEq, Inhabited

structure Tree where
  source : Text
  nodes : Array Node
  lines : LineTable := .ofText source
  lines_eq : lines = .ofText source := by rfl

namespace Tree

def size (tree : Tree) : Nat :=
  tree.nodes.size

def root : NodeId := 0

def node? (tree : Tree) (id : NodeId) : Option Node :=
  tree.nodes[id]?

/-- The node with an id; an id that is not in the tree stands for an empty unnamed node. -/
def node (tree : Tree) (id : NodeId) : Node :=
  (tree.node? id).getD default

def kind (tree : Tree) (id : NodeId) : String :=
  (tree.node id).kind

def span (tree : Tree) (id : NodeId) : Span :=
  (tree.node id).span

def parent? (tree : Tree) (id : NodeId) : Option NodeId :=
  (tree.node id).parent

def children (tree : Tree) (id : NodeId) : List NodeId :=
  (tree.node id).children

def text (tree : Tree) (id : NodeId) : Text :=
  tree.source.slice (tree.span id).start (tree.span id).stop

def startLine (tree : Tree) (id : NodeId) : Nat :=
  tree.lines.rowOf (tree.span id).start

def child? (tree : Tree) (id : NodeId) (index : Nat) : Option NodeId :=
  (tree.children id)[index]?

def firstChild? (tree : Tree) (id : NodeId) (kind : String) : Option NodeId :=
  (tree.children id).find? fun child => tree.kind child == kind

def nextSibling? (tree : Tree) (id : NodeId) : Option NodeId := do
  let parent ← tree.parent? id
  tree.child? parent ((tree.node id).position + 1)

def previousSibling? (tree : Tree) (id : NodeId) : Option NodeId := do
  match (tree.node id).position with
  | 0 => none
  | position + 1 =>
      let parent ← tree.parent? id
      tree.child? parent position

def descendants (tree : Tree) (id : NodeId) : List NodeId :=
  List.range' (id + 1) ((tree.node id).subtreeEnd - (id + 1))

/-- Follows parent links, at most `steps` of them. -/
def ancestorsUpTo (tree : Tree) : Nat → NodeId → List NodeId
  | 0, _ => []
  | steps + 1, id =>
      match tree.parent? id with
      | none => []
      | some parent => parent :: tree.ancestorsUpTo steps parent

def ancestors (tree : Tree) (id : NodeId) : List NodeId :=
  tree.ancestorsUpTo tree.size id

instance : ToString Node where
  toString node := s!"{node.kind}@{node.span}"

instance : ToString Tree where
  toString tree := s!"SyntaxTree \x7b nodes: {tree.size}, lines: {tree.lines.count}, .. \x7d"

end Tree

end HclEdit
