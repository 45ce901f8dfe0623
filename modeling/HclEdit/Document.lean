import HclEdit.ParseTree.Walk
import HclEdit.SourceError

/-!
A source text together with its parse: the errors found in it and the edits made to it.
-/

namespace HclEdit

/-- A damaged place, with its line and column counted from one. -/
structure SyntaxFault where
  span : Span
  line : Nat
  column : Nat
  message : String
deriving DecidableEq

structure Edit where
  span : Span
  replacement : Text
deriving DecidableEq

structure Document where
  source : Text
  parse : ParseTree

namespace SyntaxFault

/-- Lines and columns are counted in 32 bits. -/
def oneBased (n : Nat) : Nat :=
  min (n + 1) (UInt32.size - 1)

/-- What is told of a damaged node that starts at a point. -/
def ofNode (point : Point) (node : ParseNode) : SyntaxFault :=
  { span := node.span
    line := oneBased point.row
    column := oneBased point.column
    message := if node.isMissing then s!"missing {node.kind}" else "syntax error" }

end SyntaxFault

namespace Edit

/-- The source with a span replaced; the span must lie in it and not cut through a character. -/
def apply (edit : Edit) (source : Text) : Except SourceError Text :=
  let outOfBounds := .editOutside edit.span.start edit.span.stop (Text.byteLength source)
  if edit.span.start ≤ edit.span.stop then
    match source.cut? edit.span.start, source.cut? edit.span.stop with
    | some (front, _), some (_, back) => .ok (front ++ edit.replacement ++ back)
    | _, _ => .error outOfBounds
  else
    .error outOfBounds

end Edit

namespace Document

def hasErrors (document : Document) : Bool :=
  document.parse.hasErrors

/-- The errors, given the points at which the parser has its nodes start. -/
def errorsAt (document : Document) (startPoint : ParseNode → Point) : List SyntaxFault :=
  document.parse.damaged.map fun node => .ofNode (startPoint node) node

/-- The errors of a parse whose nodes start where the lines of the source put them. -/
def errors (document : Document) : List SyntaxFault :=
  let lines := LineTable.ofText document.source
  document.errorsAt fun node => lines.pointOf node.span.start

def tree (document : Document) : Tree :=
  .ofParse document.source document.parse

/-- The document after an edit, given a parser for the new source. -/
def edited (document : Document) (edit : Edit) (parser : Text → Except SourceError ParseTree) :
    Except SourceError Document := do
  let source ← edit.apply document.source
  return ⟨source, ← parser source⟩

end Document

end HclEdit
