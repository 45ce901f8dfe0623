import HclEdit.Tree.Basic

/-!
Finding nodes by offset and by kind.
-/

namespace HclEdit.Tree

/-- Goes down from a node to the first child that covers the offset, at most `steps` times. -/
def descend (tree : Tree) (offset : Nat) : Nat → NodeId → NodeId
  | 0, id => id
  | steps + 1, id =>
      match (tree.children id).find? fun child => (tree.span child).Covers offset with
      | none => id
      | some child => tree.descend offset steps child

/-- The innermost node that covers an offset, or the root when none does. -/
def innermostAt (tree : Tree) (offset : Nat) : NodeId :=
  tree.descend offset tree.size root

/-- Goes up from a node while the parent starts at the same offset and is not the root. -/
def climb (tree : Tree) (offset : Nat) : Nat → NodeId → NodeId
  | 0, id => id
  | steps + 1, id =>
      match tree.parent? id with
      | none => id
      | some parent =>
          if parent = root ∨ (tree.span parent).start ≠ offset then id
          else tree.climb offset steps parent

/-- The outermost node other than the root that starts at an offset it also covers. -/
def outermostStartingAt? (tree : Tree) (offset : Nat) : Option NodeId :=
  let leaf := tree.innermostAt offset
  if leaf = root ∨ (tree.span leaf).start ≠ offset then none
  else some (tree.climb offset tree.size leaf)

/-- The descendant of a kind with the given number among them, in order and from zero. -/
def nthBelow? (tree : Tree) (id : NodeId) (kind : String) (occurrence : Nat) :
    Option NodeId :=
  ((tree.descendants id).filter fun below => tree.kind below == kind)[occurrence]?

/-- The first node of a kind at most `depth` levels below a node. -/
def firstWithin? (tree : Tree) (kind : String) : Nat → NodeId → Option NodeId
  | 0, _ => none
  | depth + 1, id =>
      (tree.children id).findSome? fun child =>
        if tree.kind child == kind then some child else tree.firstWithin? kind depth child

end HclEdit.Tree
