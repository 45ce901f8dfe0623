import HclEdit.Indent.Site

/-!
Continuing the comment of the line above. A line that repeats the marker aligns with it, and any
other line aligns with the text after it. A star continues a block comment one column in.
-/

namespace HclEdit

inductive CommentMarker where
  | blockStart
  | slashes
  | hash
  | star
deriving DecidableEq

namespace CommentMarker

def text : CommentMarker → Text
  | blockStart => ['/', '*']
  | slashes => ['/', '/']
  | hash => ['#']
  | star => ['*']

def at? (content : Text) : Option CommentMarker :=
  [blockStart, slashes, hash, star].find? fun marker => marker.text.isPrefixOf content

/-- The columns from a marker to where the next line goes, given what follows the marker and how
the next line starts. -/
def continuation (marker : CommentMarker) (after next : Text) : Nat :=
  match marker, next with
  | blockStart, '*' :: _ => 1
  | star, '*' :: _ => 0
  | _, _ =>
      if marker.text.isPrefixOf next then 0
      else marker.text.length + Text.indentation after

end CommentMarker

/-- The column that continues the comment above a line; without a comment there, the column of the
line above. The first line has none. -/
def IndentSite.commentColumn? (site : IndentSite) : Option Nat :=
  match site.line with
  | 0 => none
  | above + 1 =>
      let lines := site.tree.lines
      let content := (lines.content above).unindented
      let next := Text.trimStart (lines.content (above + 1))
      let column := site.lineColumn above
      match CommentMarker.at? content with
      | none => some column
      | some marker =>
          some (column + marker.continuation (content.drop marker.text.length) next)

end HclEdit
