import HclEdit.Tree.Search

/-!
The attributes and blocks of a tree. Blocks are named by their labels, taken as written between
the quotes; without a label, and for attributes, the identifier is the name.
-/

namespace HclEdit

inductive Definition where
  | attr
  | block
deriving DecidableEq

def Definition.name : Definition → String
  | attr => "attribute"
  | block => "block"

structure OutlineItem where
  kind : Definition
  name : Text
  line : Nat
  span : Span
  children : List OutlineItem

namespace Text

def dropQuoteBefore : Text → Text
  | '"' :: rest => rest
  | text => text

def dropQuoteAfter (text : Text) : Text :=
  if text.getLast? = some '"' then text.dropLast else text

end Text

namespace Tree

def definition? (tree : Tree) (id : NodeId) : Option Definition :=
  if tree.kind id = "attribute" then some .attr
  else if tree.kind id = "block" then some .block
  else none

/-- The text between the quotes of a label: between its delimiters where the tree has them. -/
def labelName (tree : Tree) (label : NodeId) : Text :=
  match tree.firstChild? label "quoted_template_start",
      tree.firstChild? label "quoted_template_end" with
  | some opening, some closing =>
      tree.source.slice (tree.span opening).stop (tree.span closing).start
  | _, _ => (tree.text label).dropQuoteBefore.dropQuoteAfter

def identifier? (tree : Tree) (id : NodeId) : Option Text :=
  (tree.firstChild? id "identifier").map tree.text

/-- A block takes its name from its first label and the label right after it. -/
def nameOfBlock? (tree : Tree) (block : NodeId) : Option Text :=
  match tree.firstChild? block "string_lit" with
  | none => tree.identifier? block
  | some first =>
      match (tree.nextSibling? first).filter (tree.kind · == "string_lit") with
      | none => some (tree.labelName first)
      | some second => some (tree.labelName first ++ ' ' :: tree.labelName second)

def name? (tree : Tree) (id : NodeId) : Option Text :=
  match tree.definition? id with
  | none => none
  | some .attr => tree.identifier? id
  | some .block => tree.nameOfBlock? id

/-- The items below a node, down to `depth` levels. What has no name gives way to what is below
it, and nothing is listed below an attribute. -/
def itemsBelow (tree : Tree) : Nat → NodeId → List OutlineItem
  | 0, _ => []
  | depth + 1, id =>
      (tree.children id).flatMap fun child =>
        match tree.definition? child, tree.name? child with
        | some kind, some name =>
            let children :=
              match kind with
              | .attr => []
              | .block => tree.itemsBelow depth child
            [⟨kind, name, tree.startLine child + 1, tree.span child, children⟩]
        | _, _ => tree.itemsBelow depth child

def outline (tree : Tree) : List OutlineItem :=
  tree.itemsBelow tree.size root

/-- The innermost attribute or block around an offset. -/
def definitionAround? (tree : Tree) (offset : Nat) : Option NodeId :=
  let enclosing := tree.innermostAt offset
  (enclosing :: tree.ancestors enclosing).find? fun id => (tree.definition? id).isSome

end Tree

end HclEdit
