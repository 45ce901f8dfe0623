import HclEdit.Indent.Column

/-!
Re-indenting a whole source. Lines get their columns from top to bottom, and a rule that looks at a
line above sees the column assigned to it. Blank lines become empty; all other text stays.
-/

namespace HclEdit

def Line.isBlank (line : Line) : Bool :=
  Text.isBlankText line.content

/-- A line moved to a column. Its indentation is left as it is when it already has that width. -/
def Line.reindented (line : Line) (column : Nat) : Text :=
  if line.isBlank then
    line.ending.text
  else if column = Text.indentation line.content then
    line.text
  else
    List.replicate column ' ' ++ Text.trimStart line.content ++ line.ending.text

namespace IndentRules

/-- The column of the line after those already assigned. -/
def nextColumn (rules : IndentRules) (tree : Tree) (assigned : List Nat) (line : Line) : Nat :=
  if line.isBlank then 0
  else rules.column (.ofLine tree assigned assigned.length line)

/-- The column assigned to each line of the source. -/
def columns (rules : IndentRules) (tree : Tree) : List Nat :=
  tree.lines.lines.foldl (fun assigned line => assigned ++ [rules.nextColumn tree assigned line]) []

theorem length_columns (rules : IndentRules) (tree : Tree) :
    (rules.columns tree).length = tree.lines.count := by
  have grows (lines : List Line) (assigned : List Nat) :
      (lines.foldl (fun assigned line => assigned ++ [rules.nextColumn tree assigned line])
        assigned).length = assigned.length + lines.length := by
    induction lines generalizing assigned with
    | nil => rfl
    | cons line rest ih =>
      simp [ih]
      omega
  simpa [columns, LineTable.count] using grows tree.lines.lines []

def reindent (rules : IndentRules) (tree : Tree) : Text :=
  (List.zipWith Line.reindented tree.lines.lines (rules.columns tree)).flatten

end IndentRules

end HclEdit
