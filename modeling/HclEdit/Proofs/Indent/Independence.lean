import HclEdit.Proofs.Indent.Idempotence

/-!
# Columns do not depend on how the source was indented

Two texts that differ in their indentation alone get the same columns, as long as each line is
placed by lines above it. The pass sees a line above at the column it has just been given, and a
comment there begins with the same characters in both texts once the indentation is taken off.
-/

namespace HclEdit

/-- The same lines but for what each of them starts with. -/
structure LineTable.SameBehindIndentation (table other : LineTable) : Prop where
  count_eq : other.count = table.count
  trimStart_eq : ∀ number,
    Text.trimStart (other.content number) = Text.trimStart (table.content number)

namespace LineTable

variable {table other : LineTable} (hsame : table.SameBehindIndentation other)
include hsame

theorem SameBehindIndentation.exists_line? {number : Nat} {line : Line}
    (hline : table.line? number = some line) :
    ∃ otherLine, other.line? number = some otherLine ∧
      Text.trimStart otherLine.content = Text.trimStart line.content ∧
      otherLine.isBlank = line.isBlank := by
  have hlt : number < other.lines.length := by
    have hcount := hsame.count_eq
    rw [count, count] at hcount
    rw [hcount]
    exact (List.getElem?_eq_some_iff.1 hline).1
  have hother : other.line? number = some other.lines[number] := List.getElem?_eq_getElem hlt
  have htrim := hsame.trimStart_eq number
  rw [content_of_line?_eq hline, content_of_line?_eq hother] at htrim
  refine ⟨other.lines[number], hother, htrim, ?_⟩
  rw [Bool.eq_iff_iff, Line.isBlank, Line.isBlank, Text.isBlankText_iff, Text.isBlankText_iff,
    htrim]

end LineTable

namespace IndentRules

/-- Every line is placed by lines above it, and none stays where the source has it. -/
def PlacedFromAbove (rules : IndentRules) (tree : Tree) : Prop :=
  ∀ number line, tree.lines.line? number = some line → line.isBlank = false →
    (∀ rule, rules.deciding? (rules.siteOf tree number line) = some rule →
        rule.anchor ≠ .current) ∧
      ∀ id ∈ rules.readNode? (rules.siteOf tree number line), tree.startLine id < number

theorem placedFromAbove_of_lt_count {rules : IndentRules} {tree : Tree}
    (hplaced : ∀ number, number < tree.lines.count → ∀ line ∈ tree.lines.line? number,
      line.isBlank = false →
      (∀ rule ∈ rules.deciding? (rules.siteOf tree number line), rule.anchor ≠ .current) ∧
        ∀ id ∈ rules.readNode? (rules.siteOf tree number line), tree.startLine id < number) :
    rules.PlacedFromAbove tree :=
  fun number line hline => hplaced number (List.getElem?_eq_some_iff.1 hline).1 line hline

section Pass

variable {rules : IndentRules} {tree other : Tree} (htree : tree.Linked) (hother : other.Linked)
  (hsame : tree.lines.SameBehindIndentation other.lines) (hrelaid : tree.Relaid other)
  (hplain : IndentedPlainly tree) (hotherPlain : IndentedPlainly other)

section Comment

variable {above column : Nat} {line otherLine : Line} (hline : tree.lines.line? above = some line)
  (hotherLine : other.lines.line? above = some otherLine)
  (htrim : Text.trimStart otherLine.content = Text.trimStart line.content)
include hplain hotherPlain hline hotherLine htrim

/-- Both texts show the same comment on a line. -/
theorem columnBelow_eq (hblank : otherLine.isBlank = line.isBlank) (next : Text) :
    CommentMarker.columnBelow column otherLine.content.unindented next =
      CommentMarker.columnBelow column line.content.unindented next := by
  cases hlineBlank : line.isBlank with
  | true =>
      rw [CommentMarker.columnBelow_of_isBlankText hlineBlank,
        CommentMarker.columnBelow_of_isBlankText (hblank.trans hlineBlank)]
  | false =>
      rw [hplain above line hline hlineBlank,
        hotherPlain above otherLine hotherLine (hblank.trans hlineBlank), htrim]

end Comment

include hsame hplain hotherPlain

theorem commentColumn?_eq {above column : Nat} {next otherNext : Line}
    (hnext : tree.lines.line? (above + 1) = some next)
    (hotherNext : other.lines.line? (above + 1) = some otherNext)
    (hcolumn : (rules.columns tree)[above]? = some column)
    (hotherColumn : (rules.columns other)[above]? = some column) :
    (rules.siteOf other (above + 1) otherNext).commentColumn? =
      (rules.siteOf tree (above + 1) next).commentColumn? := by
  obtain ⟨line, hline⟩ := exists_line?_of_columns hcolumn
  obtain ⟨otherLine, hotherLine, htrim, hblank⟩ := hsame.exists_line? hline
  have hnextTrim := hsame.trimStart_eq (above + 1)
  rw [LineTable.content_of_line?_eq hnext, LineTable.content_of_line?_eq hotherNext] at hnextTrim
  rw [commentColumn?_siteOf hline hnext hcolumn,
    commentColumn?_siteOf hotherLine hotherNext hotherColumn, hnextTrim,
    columnBelow_eq hplain hotherPlain hline hotherLine htrim hblank]

include htree hother hrelaid

/-- **One step of both passes.** A line gets the same column once the lines above it have. -/
theorem column_of_line_eq (hplaced : rules.PlacedFromAbove tree) {number : Nat}
    {line otherLine : Line} (hline : tree.lines.line? number = some line)
    (hotherLine : other.lines.line? number = some otherLine) (hblank : line.isBlank = false)
    (habove : ∀ row, row < number → (rules.columns other)[row]? = (rules.columns tree)[row]?) :
    rules.column (rules.siteOf other number otherLine) =
      rules.column (rules.siteOf tree number line) := by
  obtain ⟨hcurrent, hreads⟩ := hplaced number line hline hblank
  have hcolumn := rules.column_of_line hline hblank
  have hagrees := siteOf_agrees rules htree hother hrelaid hline hotherLine hblank
  apply hagrees.column_eq rules
  · intro id hid
    have hlt : tree.startLine id < number := hreads id hid
    obtain ⟨column, hrow⟩ := exists_columns_of_lt hcolumn hlt
    have hotherRow := (habove _ hlt).trans hrow
    calc (rules.siteOf other number otherLine).nodeColumn id
        = (rules.siteOf other number otherLine).lineColumn (tree.startLine id) :=
          congrArg (rules.siteOf other number otherLine).lineColumn (hrelaid.startLine_eq_of_any id)
      _ = column := lineColumn_siteOf rules other otherLine hlt hotherRow
      _ = (rules.siteOf tree number line).nodeColumn id :=
          (lineColumn_siteOf rules tree line hlt hrow).symm
  · intro rule hdeciding hanchor
    obtain ⟨above, rfl⟩ : ∃ above, number = above + 1 := exists_above_of_comment hdeciding hanchor
    obtain ⟨column, hrow⟩ := exists_columns_of_lt hcolumn (Nat.lt_succ_self above)
    have hotherRow := (habove above (Nat.lt_succ_self above)).trans hrow
    exact commentColumn?_eq hsame hplain hotherPlain hline hotherLine hrow hotherRow
  · intro rule hdeciding hanchor
    exact absurd hanchor (hcurrent rule hdeciding)

theorem getElem?_columns_eq (hplaced : rules.PlacedFromAbove tree) (number : Nat) :
    (rules.columns other)[number]? = (rules.columns tree)[number]? := by
  -- By induction on the line: the columns above it are the same in both passes.
  induction number using Nat.strongRecOn with
  | ind number ih =>
      cases hline : tree.lines.line? number with
      | none =>
          have hcount : tree.lines.count ≤ number := List.getElem?_eq_none_iff.1 hline
          rw [List.getElem?_eq_none, List.getElem?_eq_none]
          · rw [length_columns]
            exact hcount
          · rw [length_columns, hsame.count_eq]
            exact hcount
      | some line =>
          obtain ⟨otherLine, hotherLine, -, hotherBlank⟩ := hsame.exists_line? hline
          cases hblank : line.isBlank with
          | true =>
              rw [columns_of_isBlank hline hblank,
                columns_of_isBlank hotherLine (hotherBlank.trans hblank)]
          | false =>
              rw [column_of_line hline hblank,
                column_of_line hotherLine (hotherBlank.trans hblank),
                column_of_line_eq htree hother hsame hrelaid hplain hotherPlain hplaced hline
                  hotherLine hblank ih]

end Pass

/-- **The indentation of the source does not show in the columns.** Two trees of one shape, over
texts that differ in how their lines are indented with spaces and tabs, get the same columns when
every line is placed by lines above it. -/
theorem columns_eq_of_sameBehindIndentation (rules : IndentRules) {tree other : Tree}
    (htree : tree.Made) (hother : other.Made)
    (hsame : tree.lines.SameBehindIndentation other.lines) (hplain : IndentedPlainly tree)
    (hotherPlain : IndentedPlainly other) (hrelaid : tree.Relaid other)
    (hplaced : rules.PlacedFromAbove tree) : rules.columns other = rules.columns tree := by
  apply List.ext_getElem?
  exact getElem?_columns_eq htree.linked hother.linked hsame hrelaid hplain hotherPlain hplaced

/-- The commented block with its comment far off, indented by tabs. -/
def tabbedComment : Tree :=
  commentTree ['a', ' ', '{', '\n', '\t', '\t', '\t', '/', '*', ' ', 'x', '\n', ' ', 'y', ' ', '*',
    '/', '\n', '}'] 7 17

theorem columns_tabbedComment :
    flushComment.Made ∧ tabbedComment.Made ∧
      flushComment.lines.SameBehindIndentation tabbedComment.lines ∧
      IndentedPlainly flushComment ∧ IndentedPlainly tabbedComment ∧
      flushComment.Relaid tabbedComment ∧ standard.PlacedFromAbove flushComment ∧
      standard.columns tabbedComment = standard.columns flushComment := by
  have hmade : flushComment.Made :=
    .built (rfl : Tree.build flushComment.source (commentCalls 4 13) = .ok flushComment)
  have htabbed : tabbedComment.Made :=
    .built (rfl : Tree.build tabbedComment.source (commentCalls 7 17) = .ok tabbedComment)
  have hsame : flushComment.lines.SameBehindIndentation tabbedComment.lines := by
    refine ⟨by decide, fun number => ?_⟩
    rcases Nat.lt_or_ge number 4 with hlt | hge
    · revert number
      decide
    · obtain ⟨later, rfl⟩ := Nat.exists_eq_add_of_le' hge
      rfl
  have hplain : IndentedPlainly flushComment := indentedPlainly_of_lt_count (by decide)
  have htabbedPlain : IndentedPlainly tabbedComment := indentedPlainly_of_lt_count (by decide)
  have hrelaid : flushComment.Relaid tabbedComment :=
    Tree.relaid_of_lt_count (by decide) (by decide) (by decide) (by decide) (by decide)
  have hplaced : standard.PlacedFromAbove flushComment := placedFromAbove_of_lt_count (by decide)
  exact ⟨hmade, htabbed, hsame, hplain, htabbedPlain, hrelaid, hplaced,
    columns_eq_of_sameBehindIndentation standard hmade htabbed hsame hplain htabbedPlain hrelaid
      hplaced⟩

end IndentRules

end HclEdit
