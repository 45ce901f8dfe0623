import HclEdit.Proofs.Indent.Deciding
import HclEdit.Proofs.Indent.Reindent

/-!
# Well-indented sources

A pass over a source and the query for one line differ in what they see above a line: the pass sees
the columns it has assigned, the query sees the source. They see the same as long as the pass has
changed nothing, so it changes nothing at all exactly when the query finds every line in its column.
-/

namespace HclEdit

namespace IndentSite

variable (tree : Tree) (assigned : List Nat) (number : Nat) (line : Line)

theorem ofLine_agrees :
    (ofLine tree [] number line).Agrees (ofLine tree assigned number line) where
  node_eq := rfl
  parent_eq := rfl
  line_eq := rfl
  kind_eq := fun _ => rfl
  parent?_eq := fun _ => rfl
  children_eq := fun _ => rfl

theorem lineColumn_ofLine_nil (row : Nat) :
    (ofLine tree [] number line).lineColumn row = (tree.lines.content row).indentation := by
  change (if row < number then _ else _) = _
  split <;> rfl

variable {tree assigned number}

theorem lineColumn_ofLine_of_written
    (hwritten : ∀ row, row < number →
      assigned[row]? = some (tree.lines.content row).indentation) (row : Nat) :
    (ofLine tree assigned number line).lineColumn row =
      (ofLine tree [] number line).lineColumn row := by
  rw [lineColumn_ofLine_nil]
  change (if row < number then assigned[row]?.getD _ else _) = _
  by_cases hlt : row < number
  · rw [if_pos hlt, hwritten row hlt, Option.getD_some]
  · rw [if_neg hlt]
    rfl

/-- Columns that are those of the source are as good as none. -/
theorem column_ofLine_of_written (rules : IndentRules)
    (hwritten : ∀ row, row < number →
      assigned[row]? = some (tree.lines.content row).indentation) :
    rules.column (ofLine tree assigned number line) =
      rules.column (ofLine tree [] number line) := by
  have hsame := lineColumn_ofLine_of_written line hwritten
  apply (ofLine_agrees tree assigned number line).column_eq rules
  · intro id _
    exact hsame (tree.startLine id)
  · intro rule _ _
    cases number with
    | zero => rfl
    | succ above =>
        rw [commentColumn?_of_line_eq rfl, commentColumn?_of_line_eq rfl, hsame above]
        rfl
  · intro rule _ _
    exact hsame number

end IndentSite

namespace IndentRules

variable {rules : IndentRules} {tree : Tree}

section Above

variable {number : Nat} {line : Line} (hline : tree.lines.line? number = some line)
  (habove : ∀ row, row < number →
    (rules.columns tree)[row]? = some (tree.lines.content row).indentation)
include hline habove

/-- Below lines that stay where they are, the pass and the query find the same column. -/
theorem columns_eq_columnOfLine (hblank : line.isBlank = false) :
    (rules.columns tree)[number]? = some (rules.columnOfLine tree number) := by
  have hwritten : ∀ row, row < number →
      ((rules.columns tree).take number)[row]? = some (tree.lines.content row).indentation := by
    intro row hrow
    rw [List.getElem?_take_of_lt hrow, habove row hrow]
  rw [column_of_line hline hblank, siteOf, IndentSite.column_ofLine_of_written line rules hwritten,
    columnOfLine, hline]
  rfl

/-- The pass keeps the content of a line below lines that stay where they are. -/
theorem moved_eq_content_iff_columnOfLine {column : Nat}
    (hcolumn : (rules.columns tree)[number]? = some column) :
    line.moved column = line.content ↔
      if line.isBlank then line.content = []
      else rules.columnOfLine tree number = line.content.indentation := by
  cases hblank : line.isBlank with
  | true =>
      rw [Line.moved_of_isBlank hblank]
      exact eq_comm
  | false =>
      rw [columns_eq_columnOfLine hline habove hblank] at hcolumn
      obtain rfl := Option.some.inj hcolumn
      exact Line.moved_eq_content_iff hblank

end Above

/-- A line that the pass leaves as it is has the column of its own indentation. -/
theorem columns_of_moved_eq_content {number column : Nat} {line : Line}
    (hline : tree.lines.line? number = some line)
    (hcolumn : (rules.columns tree)[number]? = some column)
    (hmoved : line.moved column = line.content) :
    (rules.columns tree)[number]? = some (tree.lines.content number).indentation := by
  rw [LineTable.content_of_line?_eq hline]
  cases hblank : line.isBlank with
  | true =>
      rw [Line.moved_of_isBlank hblank] at hmoved
      rw [columns_of_isBlank hline hblank, ← hmoved]
      rfl
  | false =>
      rw [Line.moved_eq_content_iff hblank] at hmoved
      rw [hcolumn, hmoved]

theorem columns_eq_indentation
    (hquery : ∀ number line, tree.lines.line? number = some line →
      if line.isBlank then line.content = []
      else rules.columnOfLine tree number = line.content.indentation)
    {number : Nat} (hlt : number < tree.lines.count) :
    (rules.columns tree)[number]? = some (tree.lines.content number).indentation := by
  -- By induction on the line: all lines above it stay where they are.
  induction number using Nat.strongRecOn with
  | ind number ih =>
      have hline : tree.lines.line? number = some _ := List.getElem?_eq_getElem hlt
      have hcolumn : (rules.columns tree)[number]? = some _ := getElem?_columns hline
      have habove : ∀ row, row < number →
          (rules.columns tree)[row]? = some (tree.lines.content row).indentation :=
        fun row hrow => ih row hrow (Nat.lt_trans hrow hlt)
      apply columns_of_moved_eq_content hline hcolumn
      rw [moved_eq_content_iff_columnOfLine hline habove hcolumn]
      exact hquery number _ hline

/-- **A source stays as it is exactly when every line is where the query for that line puts it**,
and its blank lines are empty. -/
theorem reindent_eq_source_iff_columnOfLine (rules : IndentRules) (tree : Tree) :
    rules.reindent tree = tree.source ↔
      ∀ number line, (LineTable.ofText tree.source).line? number = some line →
        if line.isBlank then line.content = []
        else rules.columnOfLine tree number = line.content.indentation := by
  rw [reindent_eq_source_iff, ← tree.lines_eq]
  constructor
  · intro hmoved number line hline
    have hcolumn : (rules.columns tree)[number]? = some _ := getElem?_columns hline
    have hlt : number < tree.lines.count := (List.getElem?_eq_some_iff.1 hline).1
    have habove : ∀ row, row < number →
        (rules.columns tree)[row]? = some (tree.lines.content row).indentation := by
      intro row hrow
      have hrowLine : tree.lines.line? row = some _ :=
        List.getElem?_eq_getElem (Nat.lt_trans hrow hlt)
      have hrowColumn : (rules.columns tree)[row]? = some _ := getElem?_columns hrowLine
      exact columns_of_moved_eq_content hrowLine hrowColumn (hmoved row _ _ hrowLine hrowColumn)
    exact (moved_eq_content_iff_columnOfLine hline habove hcolumn).1
      (hmoved number line _ hline hcolumn)
  · intro hquery number line column hline hcolumn
    have hlt : number < tree.lines.count := (List.getElem?_eq_some_iff.1 hline).1
    have habove : ∀ row, row < number →
        (rules.columns tree)[row]? = some (tree.lines.content row).indentation :=
      fun row hrow => columns_eq_indentation hquery (Nat.lt_trans hrow hlt)
    exact (moved_eq_content_iff_columnOfLine hline habove hcolumn).2 (hquery number line hline)

/-- A block whose attribute is indented by two tabs, with an empty line below it. -/
def tabbedBlock : Tree :=
  .ofParse ['a', ' ', '{', '\n', '\t', '\t', 'x', '\n', '\n', '}']
    [⟨0, "config_file", ⟨0, 10⟩, true, false, false, false⟩,
      ⟨1, "body", ⟨0, 10⟩, true, false, false, false⟩,
      ⟨2, "block", ⟨0, 10⟩, true, false, false, false⟩,
      ⟨3, "identifier", ⟨0, 1⟩, true, false, false, false⟩,
      ⟨3, "block_start", ⟨2, 3⟩, true, false, false, false⟩,
      ⟨3, "body", ⟨6, 7⟩, true, false, false, false⟩,
      ⟨4, "attribute", ⟨6, 7⟩, true, false, false, false⟩,
      ⟨3, "block_end", ⟨9, 10⟩, true, false, false, false⟩]

theorem reindent_tabbedBlock :
    (∀ number line, (LineTable.ofText tabbedBlock.source).line? number = some line →
      if line.isBlank then line.content = []
      else standard.columnOfLine tabbedBlock number = line.content.indentation) ∧
      standard.reindent tabbedBlock = tabbedBlock.source := by
  have hcounted : ∀ number, number < (LineTable.ofText tabbedBlock.source).count →
      ∀ line ∈ (LineTable.ofText tabbedBlock.source).line? number,
        if line.isBlank then line.content = []
        else standard.columnOfLine tabbedBlock number = line.content.indentation := by decide
  have hquery : ∀ number line,
      (LineTable.ofText tabbedBlock.source).line? number = some line →
        if line.isBlank then line.content = []
        else standard.columnOfLine tabbedBlock number = line.content.indentation :=
    fun number line hline => hcounted number (List.getElem?_eq_some_iff.1 hline).1 line hline
  exact ⟨hquery, (reindent_eq_source_iff_columnOfLine standard tabbedBlock).2 hquery⟩

end IndentRules

end HclEdit
