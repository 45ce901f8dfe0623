import HclEdit.ParseTree
import HclEdit.Tree.Layout

/-!
Walking through a parse with a cursor, and laying out its nodes on the way. A cursor moves to the
first child of a node, to its next sibling or back to its parent, and knows no more of the parse
than where these are.
-/

namespace HclEdit

namespace ParseTree

/-- A node of a parse and the nodes after it. -/
structure Place where
  node : ParseNode
  after : ParseTree

/-- A place, and the places of the nodes around it, innermost first. -/
structure Cursor where
  place : Place
  above : List Place

/-- A first child comes right after its parent. -/
def Cursor.firstChild? (cursor : Cursor) : Option Cursor :=
  match cursor.place.after with
  | [] => none
  | node :: after =>
      if cursor.above.length < node.depth then
        some ⟨⟨node, after⟩, cursor.place :: cursor.above⟩
      else
        none

/-- A next sibling comes right after everything that is deeper. -/
def Cursor.nextSibling? (cursor : Cursor) : Option Cursor :=
  match cursor.place.after.dropWhile (cursor.above.length < ·.depth) with
  | [] => none
  | node :: after =>
      if node.depth = cursor.above.length then some ⟨⟨node, after⟩, cursor.above⟩ else none

/-- Goes on behind a node with nothing left to visit below it: to its next sibling, or to that of
the parent. For each level that the cursor climbs one ancestor is dropped. -/
def climb (place : Place) (above : List Place) (ancestors : List NodeId) :
    Option (Cursor × List NodeId) :=
  match Cursor.nextSibling? ⟨place, above⟩ with
  | some next => some (next, ancestors)
  | none =>
      match above with
      | [] => none
      | parent :: outer => climb parent outer ancestors.tail

/-- Lays out the node at a cursor and the nodes after it, `rounds` at most. A node becomes an
ancestor only if it has a child to go on to. -/
def walk : Nat → Cursor → Layout → Layout
  | 0, _, layout => layout
  | rounds + 1, cursor, layout =>
      let node := cursor.place.node
      let id := layout.nodes.size
      let added := layout.add node.kind node.span node.named
      match cursor.firstChild? with
      | some child => walk rounds child { added with path := id :: added.path }
      | none =>
          match climb cursor.place cursor.above added.path with
          | some (next, ancestors) => walk rounds next { added with path := ancestors }
          | none => added

end ParseTree

def Tree.ofParse (source : Text) : ParseTree → Tree
  | [] => assemble source #[]
  | top :: rest => assemble source (ParseTree.walk (rest.length + 1) ⟨⟨top, rest⟩, []⟩ .empty).nodes

end HclEdit
