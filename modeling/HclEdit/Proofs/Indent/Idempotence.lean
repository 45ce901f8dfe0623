import HclEdit.Proofs.Indent.Reindent
import HclEdit.Proofs.Indent.Relaid

/-!
# Re-indenting twice

A second pass, over the text that the first one wrote, sees the same columns above a line and is
decided by the same rules. One thing can differ: the first pass looks for a comment in the line
above behind its spaces and tabs only, and moving that line takes every other blank character away
too. A comment that stood behind one is seen by the second pass alone. The second pass changes
nothing exactly when no such comment matters.
-/

namespace HclEdit.IndentRules

/-- Rules that keep a line where it is keep it there exactly. -/
def KeepsCurrent (rules : IndentRules) : Prop :=
  ∀ rule ∈ rules, rule.anchor = .current → rule.offset = 0

/-- No line is placed by a line below it, nor moved off itself. -/
def ReadsAbove (rules : IndentRules) (tree : Tree) : Prop :=
  ∀ number line, tree.lines.line? number = some line → line.isBlank = false →
    ∀ id ∈ rules.readNode? (rules.siteOf tree number line),
      tree.startLine id ≤ number ∧
        (rules.readOffset (rules.siteOf tree number line) ≠ 0 → tree.startLine id < number)

theorem readsAbove_of_lt_count {rules : IndentRules} {tree : Tree}
    (hreads : ∀ number, number < tree.lines.count → ∀ line ∈ tree.lines.line? number,
      line.isBlank = false → ∀ id ∈ rules.readNode? (rules.siteOf tree number line),
        tree.startLine id ≤ number ∧
          (rules.readOffset (rules.siteOf tree number line) ≠ 0 → tree.startLine id < number)) :
    rules.ReadsAbove tree :=
  fun number line hline => hreads number (List.getElem?_eq_some_iff.1 hline).1 line hline

/-- A line placed by the comment above it is where that comment, once moved, would place it. -/
def SteadyComments (rules : IndentRules) (tree : Tree) : Prop :=
  ∀ above line next rule column, tree.lines.line? above = some line →
    tree.lines.line? (above + 1) = some next → next.isBlank = false →
    rules.deciding? (rules.siteOf tree (above + 1) next) = some rule →
    rule.anchor = .commentAbove → (rules.columns tree)[above]? = some column →
    (rules.columns tree)[above + 1]? = some (shiftColumn
      (CommentMarker.columnBelow column (line.moved column).unindented
        (Text.trimStart next.content)) rule.offset)

@[simp] theorem shiftColumn_shiftColumn_zero (column : Nat) :
    shiftColumn (shiftColumn column 0) 0 = shiftColumn column 0 := by
  rw [shiftColumn_zero, shiftColumn_zero, Nat.min_assoc, Nat.min_self]

/-! ### Comments that stay in sight -/

theorem columns_of_comment {rules : IndentRules} {tree : Tree} {above column : Nat}
    {line next : Line} {rule : IndentRule} (hline : tree.lines.line? above = some line)
    (hnext : tree.lines.line? (above + 1) = some next) (hblank : next.isBlank = false)
    (hcolumn : (rules.columns tree)[above]? = some column)
    (hdeciding : rules.deciding? (rules.siteOf tree (above + 1) next) = some rule)
    (hanchor : rule.anchor = .commentAbove) :
    (rules.columns tree)[above + 1]? = some (shiftColumn
      (CommentMarker.columnBelow column line.content.unindented (Text.trimStart next.content))
      rule.offset) := by
  rw [rules.column_of_line hnext hblank, rules.column_eq, hdeciding]
  dsimp only
  rw [hanchor, Anchor.column?, commentColumn?_siteOf hline hnext hcolumn]
  rfl

/-- The first character of no line stands behind a blank one other than a space or a tab. -/
def IndentedPlainly (tree : Tree) : Prop :=
  ∀ number line, tree.lines.line? number = some line → line.isBlank = false →
    line.content.unindented = Text.trimStart line.content

theorem indentedPlainly_of_lt_count {tree : Tree}
    (hplain : ∀ number, number < tree.lines.count → ∀ line ∈ tree.lines.line? number,
      line.isBlank = false → line.content.unindented = Text.trimStart line.content) :
    IndentedPlainly tree :=
  fun number line hline => hplain number (List.getElem?_eq_some_iff.1 hline).1 line hline

theorem steadyComments_of_indentedPlainly {rules : IndentRules} {tree : Tree}
    (hplain : IndentedPlainly tree) : rules.SteadyComments tree := by
  intro above line next rule column hline hnext hblank hdeciding hanchor hcolumn
  rw [columns_of_comment hline hnext hblank hcolumn hdeciding hanchor]
  cases hblankLine : line.isBlank with
  | true =>
      rw [Line.moved_of_isBlank hblankLine, CommentMarker.columnBelow_of_isBlankText hblankLine,
        CommentMarker.columnBelow_of_isBlankText rfl]
  | false => rw [Line.unindented_moved hblankLine (hplain above line hline hblankLine)]

/-! ### One line, asked about twice -/

section Site

variable {rules : IndentRules} {site other : IndentSite} (hagrees : site.Agrees other)
  (hstart : ∀ id, other.tree.startLine id = site.tree.startLine id)
  (habove : ∀ row, row < site.line → other.lineColumn row = site.lineColumn row)
  (hself : other.lineColumn site.line = rules.column site)
include hstart habove hself

theorem nodeColumn_again {id : NodeId} (hle : site.tree.startLine id ≤ site.line) :
    other.nodeColumn id = site.nodeColumn id ∨
      site.tree.startLine id = site.line ∧ other.nodeColumn id = rules.column site := by
  unfold IndentSite.nodeColumn
  rw [hstart]
  rcases Nat.lt_or_eq_of_le hle with hlt | heq
  · exact .inl (habove _ hlt)
  · rw [heq]
    exact .inr ⟨rfl, hself⟩

theorem shiftColumn_again {node : Option NodeId} {offset : Int32}
    (hreads : ∀ id ∈ node, site.tree.startLine id ≤ site.line ∧
      (offset ≠ 0 → site.tree.startLine id < site.line))
    (hcolumn : rules.column site =
      (node.map site.nodeColumn).elim 0 (shiftColumn · offset)) :
    (node.map other.nodeColumn).elim 0 (shiftColumn · offset) = rules.column site := by
  cases node with
  | none => exact hcolumn.symm
  | some id =>
      obtain ⟨hle, hlt⟩ := hreads id rfl
      dsimp only [Option.map_some, Option.elim_some] at hcolumn ⊢
      rcases nodeColumn_again hstart habove hself hle with hsame | ⟨heq, hnow⟩
      · rw [hsame, hcolumn]
      · have hoffset : offset = 0 :=
          Decidable.byContradiction fun hne => absurd heq (Nat.ne_of_lt (hlt hne))
        rw [hnow, hcolumn, hoffset, shiftColumn_shiftColumn_zero]

include hagrees

/-- **A line keeps its column** when it is not placed by a comment. -/
theorem column_again (hkeeps : rules.KeepsCurrent)
    (hreads : ∀ id ∈ rules.readNode? site, site.tree.startLine id ≤ site.line ∧
      (rules.readOffset site ≠ 0 → site.tree.startLine id < site.line))
    (hcomment : ∀ rule, rules.deciding? site = some rule → rule.anchor ≠ .commentAbove) :
    rules.column other = rules.column site := by
  have hsite := rules.column_eq site
  rw [rules.column_eq other, hagrees.deciding?_eq rules]
  unfold readNode? readOffset at hreads
  cases hdeciding : rules.deciding? site with
  | none =>
      rw [hdeciding] at hsite hreads
      dsimp only [Option.map_none] at hsite hreads ⊢
      rw [hagrees.parent_eq]
      cases hparent : site.parent with
      | none =>
          rw [hsite, hparent]
          rfl
      | some id =>
          rw [hparent] at hsite hreads
          rcases nodeColumn_again hstart habove hself (hreads id rfl).1 with hsame | ⟨-, hnow⟩
          · rw [hsite]
            exact hsame
          · exact hnow
  | some rule =>
      rw [hdeciding] at hsite hreads
      have hnot := hcomment rule hdeciding
      dsimp only [Option.map_some, Option.elim_some] at hsite hreads ⊢
      cases hanchor : rule.anchor with
      | margin =>
          rw [hsite, hanchor]
          rfl
      | parentLine =>
          rw [hanchor] at hsite hreads
          rw [Anchor.column?, hagrees.parent_eq]
          exact shiftColumn_again hstart habove hself hreads hsite
      | grandParentLine =>
          rw [hanchor] at hsite hreads
          rw [Anchor.column?, hagrees.grandParent_eq]
          exact shiftColumn_again hstart habove hself hreads hsite
      | commentAbove => exact absurd hanchor hnot
      | current =>
          have hoffset := hkeeps rule (List.mem_of_find?_eq_some hdeciding) hanchor
          rw [hanchor, hoffset] at hsite
          rw [hoffset]
          dsimp only [Anchor.column?, Option.elim_some] at hsite ⊢
          rw [hagrees.line_eq, hself, hsite, shiftColumn_shiftColumn_zero]

end Site

/-! ### The second pass -/

section Pass

variable {rules : IndentRules} {tree other : Tree} (htree : tree.Linked) (hother : other.Linked)
  (hrelaid : tree.Relaid other) (hsource : other.source = rules.reindent tree)

section Line

variable {number column : Nat} {line : Line} (hline : tree.lines.line? number = some line)
  (hcolumn : (rules.columns tree)[number]? = some column)
include hsource hline hcolumn

theorem exists_line?_other :
    ∃ otherLine, other.lines.line? number = some otherLine ∧
      otherLine.content = line.moved column ∧ otherLine.isBlank = line.isBlank := by
  obtain ⟨start, houtput⟩ := line?_reindent hline hcolumn
  rw [← hsource, ← other.lines_eq] at houtput
  exact ⟨_, houtput, rfl, line.isBlankText_moved column⟩

theorem columns_other_of_reindent_eq (hreindent : rules.reindent other = other.source) :
    (rules.columns other)[number]? = some column := by
  obtain ⟨otherLine, hotherLine, hcontent, hotherBlank⟩ := exists_line?_other hsource hline hcolumn
  cases hblank : line.isBlank with
  | true =>
      rw [columns_of_isBlank hline hblank] at hcolumn
      rw [← hcolumn]
      exact columns_of_isBlank hotherLine (hotherBlank.trans hblank)
  | false =>
      have hotherColumn : (rules.columns other)[number]? = some _ := getElem?_columns hotherLine
      have hmoved := (rules.reindent_eq_source_iff other).1 hreindent number _ _ hotherLine
        hotherColumn
      rw [Line.moved_eq_content_iff (hotherBlank.trans hblank), hcontent,
        line.indentation_moved hblank] at hmoved
      rw [hotherColumn, hmoved]

variable (hblank : line.isBlank = false)
  (habove : ∀ row, row < number → (rules.columns other)[row]? = (rules.columns tree)[row]?)
include htree hother hrelaid hblank habove

/-- A line that no comment places gets the same column again. -/
theorem columns_other_of_not_comment (hkeeps : rules.KeepsCurrent) (hreads : rules.ReadsAbove tree)
    (hcomment : ∀ rule, rules.deciding? (rules.siteOf tree number line) = some rule →
      rule.anchor ≠ .commentAbove) :
    (rules.columns other)[number]? = some column := by
  obtain ⟨otherLine, hotherLine, hcontent, hotherBlank⟩ := exists_line?_other hsource hline hcolumn
  have hsite := rules.column_of_line hline hblank
  rw [hcolumn] at hsite
  have hself : (rules.siteOf other number otherLine).lineColumn number = column := by
    rw [lineColumn_siteOf_self rules other hotherLine, hcontent]
    exact line.indentation_moved hblank column
  have hrow (row : Nat) (hlt : row < number) :
      (rules.siteOf other number otherLine).lineColumn row =
        (rules.siteOf tree number line).lineColumn row := by
    obtain ⟨columnAbove, hcolumnAbove⟩ := exists_columns_of_lt hcolumn hlt
    rw [lineColumn_siteOf rules tree line hlt hcolumnAbove]
    exact lineColumn_siteOf rules other otherLine hlt ((habove row hlt).trans hcolumnAbove)
  rw [rules.column_of_line hotherLine (hotherBlank.trans hblank), hsite]
  refine congrArg some ?_
  refine column_again (siteOf_agrees rules htree hother hrelaid hline hotherLine hblank)
    hrelaid.startLine_eq_of_any hrow ?_ hkeeps (hreads number line hline hblank) hcomment
  exact hself.trans (Option.some.inj hsite)

end Line

theorem count_other (hsource : other.source = rules.reindent tree) :
    other.lines.count = tree.lines.count := by
  rw [other.lines_eq, hsource, count_reindent]

include htree hother hrelaid hsource

/-- In the second pass it is the moved comment that places a line. -/
theorem columns_other_of_comment {above column : Nat} {line next : Line} {rule : IndentRule}
    (hline : tree.lines.line? above = some line) (hnext : tree.lines.line? (above + 1) = some next)
    (hblank : next.isBlank = false) (hcolumn : (rules.columns tree)[above]? = some column)
    (habove : (rules.columns other)[above]? = some column)
    (hdeciding : rules.deciding? (rules.siteOf tree (above + 1) next) = some rule)
    (hanchor : rule.anchor = .commentAbove) :
    (rules.columns other)[above + 1]? = some (shiftColumn
      (CommentMarker.columnBelow column (line.moved column).unindented
        (Text.trimStart next.content)) rule.offset) := by
  have hnextColumn := rules.column_of_line hnext hblank
  obtain ⟨otherLine, hotherLine, hcontent, -⟩ := exists_line?_other hsource hline hcolumn
  obtain ⟨otherNext, hotherNext, hnextContent, hotherBlank⟩ :=
    exists_line?_other hsource hnext hnextColumn
  have hagrees := siteOf_agrees rules htree hother hrelaid hnext hotherNext hblank
  rw [← hagrees.deciding?_eq rules] at hdeciding
  rw [columns_of_comment hotherLine hotherNext (hotherBlank.trans hblank) habove hdeciding hanchor,
    hcontent, hnextContent, Line.trimStart_moved]

/-- Line by line from the top, the second pass gives every line its column again. -/
theorem columns_other (hkeeps : rules.KeepsCurrent) (hreads : rules.ReadsAbove tree)
    (hsteady : rules.SteadyComments tree) {number column : Nat}
    (hcolumn : (rules.columns tree)[number]? = some column) :
    (rules.columns other)[number]? = some column := by
  induction number using Nat.strongRecOn generalizing column with
  | ind number ih =>
      have habove (row : Nat) (hrow : row < number) :
          (rules.columns other)[row]? = (rules.columns tree)[row]? := by
        obtain ⟨columnAbove, hcolumnAbove⟩ := exists_columns_of_lt hcolumn hrow
        exact (ih row hrow hcolumnAbove).trans hcolumnAbove.symm
      obtain ⟨line, hline⟩ := exists_line?_of_columns hcolumn
      cases hblank : line.isBlank with
      | true =>
          rw [columns_of_isBlank hline hblank] at hcolumn
          obtain ⟨otherLine, hotherLine, -, hotherBlank⟩ := exists_line?_other hsource hline
            (columns_of_isBlank hline hblank)
          rw [← hcolumn]
          exact columns_of_isBlank hotherLine (hotherBlank.trans hblank)
      | false =>
          -- Only here do the passes differ: the second one sees the moved comment.
          by_cases hcomment : ∃ rule,
              rules.deciding? (rules.siteOf tree number line) = some rule ∧
                rule.anchor = .commentAbove
          · obtain ⟨rule, hdeciding, hanchor⟩ := hcomment
            obtain ⟨above, rfl⟩ : ∃ above, number = above + 1 :=
              exists_above_of_comment hdeciding hanchor
            obtain ⟨columnAbove, hcolumnAbove⟩ :=
              exists_columns_of_lt hcolumn (Nat.lt_succ_self above)
            obtain ⟨lineAbove, hlineAbove⟩ := exists_line?_of_columns hcolumnAbove
            rw [← hcolumn, hsteady above lineAbove line rule columnAbove hlineAbove hline hblank
              hdeciding hanchor hcolumnAbove]
            exact columns_other_of_comment htree hother hrelaid hsource hlineAbove hline hblank
              hcolumnAbove (ih above (Nat.lt_succ_self above) hcolumnAbove) hdeciding hanchor
          · refine columns_other_of_not_comment htree hother hrelaid hsource hline hcolumn hblank
              habove hkeeps hreads fun rule hdeciding hanchor => ?_
            exact hcomment ⟨rule, hdeciding, hanchor⟩

theorem reindent_other_iff (hkeeps : rules.KeepsCurrent) (hreads : rules.ReadsAbove tree) :
    rules.reindent other = rules.reindent tree ↔ rules.SteadyComments tree := by
  rw [← hsource]
  constructor
  · intro hreindent above line next rule column hline hnext hblank hdeciding hanchor hcolumn
    have hnextColumn := rules.column_of_line hnext hblank
    have habove := columns_other_of_reindent_eq hsource hline hcolumn hreindent
    have hagain := columns_other_of_reindent_eq hsource hnext hnextColumn hreindent
    rw [hnextColumn, ← hagain]
    exact columns_other_of_comment htree hother hrelaid hsource hline hnext hblank hcolumn habove
      hdeciding hanchor
  · intro hsteady
    rw [reindent_eq_source_iff]
    intro number otherLine column hotherLine hcolumn
    have hlt : number < tree.lines.count := by
      rw [← count_other hsource]
      exact (List.getElem?_eq_some_iff.1 hotherLine).1
    have hline : tree.lines.line? number = some _ := List.getElem?_eq_getElem hlt
    have hfirst := List.getElem?_eq_getElem
      (Nat.lt_of_lt_of_eq hlt (rules.length_columns tree).symm)
    obtain ⟨again, hagain, hcontent, -⟩ := exists_line?_other hsource hline hfirst
    rw [hotherLine] at hagain
    obtain rfl := Option.some.inj hagain
    rw [columns_other htree hother hrelaid hsource hkeeps hreads hsteady hfirst] at hcolumn
    obtain rfl := Option.some.inj hcolumn
    exact Line.moved_of_content_eq hcontent

end Pass

/-- **Re-indenting twice.** A tree laid over its own re-indented text is re-indented to the same
text exactly when no comment comes into sight that would place the line below it elsewhere. Lines
that are indented by spaces and tabs alone leave none to come into sight. -/
theorem reindent_relaid (rules : IndentRules) {tree other : Tree} (htree : tree.Made)
    (hother : other.Made) (hsource : other.source = rules.reindent tree)
    (hrelaid : tree.Relaid other) (hkeeps : rules.KeepsCurrent) (hreads : rules.ReadsAbove tree) :
    (rules.reindent other = rules.reindent tree ↔ rules.SteadyComments tree) ∧
      (IndentedPlainly tree → rules.reindent other = rules.reindent tree) := by
  have hiff := reindent_other_iff htree.linked hother.linked hrelaid hsource hkeeps hreads
  exact ⟨hiff, fun hplain => hiff.2 (steadyComments_of_indentedPlainly hplain)⟩

/-! ### A comment in a block, in plain sight and behind a form feed -/

theorem keepsCurrent_hcl (width : UInt16) : (hcl width).KeepsCurrent := by
  unfold KeepsCurrent hcl
  simp

def commentCalls (start stop : Nat) : List Draft.Call :=
  [.opening "config_file" ⟨0, stop + 2⟩, .opening "body" ⟨0, stop + 2⟩,
    .opening "block" ⟨0, stop + 2⟩, .leaf "identifier" ⟨0, 1⟩, .leaf "block_start" ⟨2, 3⟩,
    .leaf "comment" ⟨start, stop⟩, .leaf "block_end" ⟨stop + 1, stop + 2⟩,
    .closing, .closing, .closing]

def commentTree (source : Text) (start stop : Nat) : Tree :=
  ((commentCalls start stop).foldl Draft.call (.new source)).tree

def flushComment : Tree :=
  commentTree ['a', ' ', '{', '\n', '/', '*', ' ', 'x', '\n', 'y', ' ', '*', '/', '\n', '}'] 4 13

def flushCommentAgain : Tree :=
  commentTree ['a', ' ', '{', '\n', ' ', ' ', '/', '*', ' ', 'x', '\n', ' ', ' ', ' ', ' ', ' ',
    'y', ' ', '*', '/', '\n', '}'] 6 20

/-- The comment stands behind a form feed. -/
def hiddenComment : Tree :=
  commentTree ['a', ' ', '{', '\n', '\x0c', '/', '*', ' ', 'x', '\n', 'y', ' ', '*', '/', '\n',
    '}'] 5 14

def hiddenCommentAgain : Tree :=
  commentTree ['a', ' ', '{', '\n', ' ', ' ', '/', '*', ' ', 'x', '\n', ' ', ' ', 'y', ' ', '*',
    '/', '\n', '}'] 6 17

theorem reindent_flushComment :
    flushComment.Made ∧ flushCommentAgain.Made ∧
      flushCommentAgain.source = standard.reindent flushComment ∧
      flushComment.Relaid flushCommentAgain ∧ standard.KeepsCurrent ∧
      standard.ReadsAbove flushComment ∧
      standard.reindent flushCommentAgain = standard.reindent flushComment := by
  have hmade : flushComment.Made :=
    .built (rfl : Tree.build flushComment.source (commentCalls 4 13) = .ok flushComment)
  have hagain : flushCommentAgain.Made :=
    .built (rfl : Tree.build flushCommentAgain.source (commentCalls 6 20) = .ok flushCommentAgain)
  have hsource : flushCommentAgain.source = standard.reindent flushComment := by decide
  have hrelaid : flushComment.Relaid flushCommentAgain :=
    Tree.relaid_of_lt_count (by decide) (by decide) (by decide) (by decide) (by decide)
  have hkeeps : standard.KeepsCurrent := keepsCurrent_hcl 2
  have hreads : standard.ReadsAbove flushComment := readsAbove_of_lt_count (by decide)
  have hplain : IndentedPlainly flushComment := indentedPlainly_of_lt_count (by decide)
  exact ⟨hmade, hagain, hsource, hrelaid, hkeeps, hreads,
    (reindent_relaid standard hmade hagain hsource hrelaid hkeeps hreads).2 hplain⟩

theorem reindent_hiddenComment :
    hiddenComment.Made ∧ hiddenCommentAgain.Made ∧
      hiddenCommentAgain.source = standard.reindent hiddenComment ∧
      hiddenComment.Relaid hiddenCommentAgain ∧ standard.KeepsCurrent ∧
      standard.ReadsAbove hiddenComment ∧
      standard.reindent hiddenCommentAgain ≠ standard.reindent hiddenComment := by
  have hmade : hiddenComment.Made :=
    .built (rfl : Tree.build hiddenComment.source (commentCalls 5 14) = .ok hiddenComment)
  have hagain : hiddenCommentAgain.Made :=
    .built (rfl : Tree.build hiddenCommentAgain.source (commentCalls 6 17) = .ok hiddenCommentAgain)
  have hrelaid : hiddenComment.Relaid hiddenCommentAgain :=
    Tree.relaid_of_lt_count (by decide) (by decide) (by decide) (by decide) (by decide)
  exact ⟨hmade, hagain, by decide, hrelaid, keepsCurrent_hcl 2, readsAbove_of_lt_count (by decide),
    by decide⟩

end HclEdit.IndentRules
