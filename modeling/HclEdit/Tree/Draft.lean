import HclEdit.Tree.Layout

/-!
Describing a tree node by node. The calls are carried out even after one has broken a rule; the
first rule broken is what finishing reports.
-/

namespace HclEdit

inductive DraftError where
  | outsideSource (span : Span)
  | secondRoot
  | escapesParent (span : Span) (parentKind : String) (parentSpan : Span)
  | overlapsSibling (span : Span) (siblingKind : String) (siblingSpan : Span)
  | unmatchedClose
  | leftOpen (count : Nat)
  | noRoot
deriving DecidableEq

def DraftError.message : DraftError → String
  | outsideSource span => s!"span {span} is outside the source"
  | secondRoot => "tree has more than one root"
  | escapesParent span parentKind parentSpan =>
      s!"span {span} escapes parent {parentKind} {parentSpan}"
  | overlapsSibling span siblingKind siblingSpan =>
      s!"span {span} overlaps sibling {siblingKind} {siblingSpan}"
  | unmatchedClose => "close without a matching open"
  | leftOpen count => s!"{count} node(s) left open"
  | noRoot => "tree has no root"

structure Draft where
  source : Text
  layout : Layout
  error : Option DraftError

namespace Draft

inductive Call where
  | opening (kind : String) (span : Span)
  | leaf (kind : String) (span : Span)
  | closing
deriving DecidableEq

def new (source : Text) : Draft :=
  ⟨source, .empty, none⟩

/-- The rule that a node with this span would break at this point, if any. -/
def spanError? (draft : Draft) (span : Span) : Option DraftError :=
  let nodes := draft.layout.nodes
  if span.stop < span.start ∨ Text.byteLength draft.source < span.stop then
    some (.outsideSource span)
  else
    match draft.layout.path.head? with
    | none => if nodes.isEmpty then none else some .secondRoot
    | some parentId =>
        let parent := nodes[parentId]?.getD default
        if ¬ span.Within parent.span then
          some (.escapesParent span parent.kind parent.span)
        else
          match parent.children.getLast? with
          | none => none
          | some siblingId =>
              let sibling := nodes[siblingId]?.getD default
              if span.start < sibling.span.stop then
                some (.overlapsSibling span sibling.kind sibling.span)
              else
                none

/-- The rule that a call breaks at this point, if any. -/
def callError? (draft : Draft) : Call → Option DraftError
  | .opening _ span | .leaf _ span => draft.spanError? span
  | .closing => if draft.layout.path.isEmpty then some .unmatchedClose else none

def call (draft : Draft) (next : Call) : Draft :=
  { draft with
    layout :=
      match next with
      | .opening kind span => draft.layout.enter kind span true
      | .leaf kind span => draft.layout.add kind span true
      | .closing => draft.layout.leave
    error := draft.error.or (draft.callError? next) }

/-- The tree of the nodes described. -/
def tree (draft : Draft) : Tree :=
  .assemble draft.source draft.layout.nodes

def finish (draft : Draft) : Except DraftError Tree :=
  match draft.error with
  | some error => .error error
  | none =>
      if draft.layout.path ≠ [] then
        .error (.leftOpen draft.layout.path.length)
      else if draft.layout.nodes.isEmpty then
        .error .noRoot
      else
        .ok draft.tree

end Draft

/-- The tree that a list of calls describes. -/
def Tree.build (source : Text) (calls : List Draft.Call) : Except DraftError Tree :=
  (calls.foldl Draft.call (.new source)).finish

end HclEdit
