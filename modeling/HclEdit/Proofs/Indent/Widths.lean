import HclEdit.Proofs.Indent.Idempotence
import HclEdit.Proofs.Indent.Table
import HclEdit.Proofs.Indent.WellIndented
import Mathlib.Tactic.Choose

/-!
# Columns at every width

The width of a step shows in the offsets of the default table and nowhere else, so the same row of
it decides a line at every width, and that row reads the same line. What it reads is the column of a
line above, and grows with the width as that one does, or the indentation of the source, which does
not grow. The rule then adds one step or none.
-/

namespace HclEdit

/-! ### Columns that grow by steps -/

/-- A column that grows by a number of steps. It stops where columns end, unless it begins there. -/
def steppedColumn (base steps : Nat) (width : UInt16) : Nat :=
  min (base + steps * width.toNat) (max base (UInt64.size - 1))

theorem steppedColumn_zero (column : Nat) (width : UInt16) :
    steppedColumn column 0 width = column := by
  unfold steppedColumn
  omega

theorem steppedColumn_eq {base steps : Nat} {width : UInt16}
    (hfits : base + steps * width.toNat < UInt64.size) :
    steppedColumn base steps width = base + steps * width.toNat := by
  unfold steppedColumn
  omega

theorem steppedColumn_mono (base steps : Nat) {narrow wide : UInt16} (hle : narrow ≤ wide) :
    steppedColumn base steps narrow ≤ steppedColumn base steps wide := by
  have hsteps : steps * narrow.toNat ≤ steps * wide.toNat :=
    Nat.mul_le_mul_left steps (UInt16.le_iff_toNat_le.1 hle)
  unfold steppedColumn
  omega

theorem shiftColumn_steppedColumn (base steps more : Nat) {further : Nat} {width : UInt16}
    {offset : Int32} (hoffset : offset.toInt = further * width.toNat) :
    shiftColumn (steppedColumn base steps width + more) offset =
      steppedColumn (min (base + more) (UInt64.size - 1)) (steps + further) width := by
  unfold shiftColumn steppedColumn
  rw [hoffset, Nat.add_mul]
  -- The products are the same on both sides, so only the bounds are left to compare.
  generalize steps * width.toNat = grown
  have hfurther : (further : Int) * (width.toNat : Int) = ((further * width.toNat : Nat) : Int) :=
    (Int.natCast_mul _ _).symm
  rw [hfurther]
  generalize further * width.toNat = added
  omega

def IsStepped (column : UInt16 → Nat) : Prop :=
  ∃ base steps, ∀ width, column width = steppedColumn base steps width

theorem isStepped_const (column : Nat) : IsStepped fun _ => column :=
  ⟨column, 0, fun width => (steppedColumn_zero column width).symm⟩

theorem IsStepped.shift {column : UInt16 → Nat} (hcolumn : IsStepped column) (more : Nat)
    {offset : UInt16 → Int32} {further : Nat}
    (hoffset : ∀ width, (offset width).toInt = further * width.toNat) :
    IsStepped fun width => shiftColumn (column width + more) (offset width) := by
  obtain ⟨base, steps, hbase⟩ := hcolumn
  refine ⟨min (base + more) (UInt64.size - 1), steps + further, fun width => ?_⟩
  dsimp only
  rw [hbase width, shiftColumn_steppedColumn base steps more (hoffset width)]

/-- What an anchor may stand for: nothing, or a column that grows by steps with something added. -/
def ReadsSteps (column? : UInt16 → Option Nat) : Prop :=
  (∀ width, column? width = none) ∨
    ∃ column more, IsStepped column ∧ ∀ width, column? width = some (column width + more)

/-! ### Tables that count in steps -/

/-- The rule with its offset counted in steps of a width. -/
def IndentRule.widened (rule : IndentRule) (width : UInt16) : IndentRule :=
  { rule with offset := rule.offset * IndentRules.step width }

theorem CommentMarker.exists_columnBelow_eq_add (content next : Text) :
    ∃ more, ∀ column, columnBelow column content next = column + more := by
  unfold columnBelow
  cases CommentMarker.at? content with
  | none => exact ⟨0, fun _ => rfl⟩
  | some marker => exact ⟨_, fun _ => rfl⟩

namespace IndentRules

def widened (rules : IndentRules) (width : UInt16) : IndentRules :=
  rules.map (·.widened width)

/-- Every rule moves a line to the right by a number of steps, which fits at every width. -/
def CountsSteps (rules : IndentRules) : Prop :=
  ∀ rule ∈ rules, ∃ steps : Nat, ∀ width, (rule.widened width).offset.toInt = steps * width.toNat

theorem hcl_eq_widened (width : UInt16) : hcl width = (hcl 1).widened width := by
  simp [hcl, widened, IndentRule.widened, step]

theorem countsSteps_hcl : (hcl 1).CountsSteps := by
  have hoffset : ∀ rule ∈ hcl 1, rule.offset = 0 ∨ rule.offset = 1 := by simp [hcl]
  intro rule hrule
  rcases hoffset rule hrule with hzero | hone
  · exact ⟨0, fun width => by simp [IndentRule.widened, hzero]⟩
  · exact ⟨1, fun width => by simp [IndentRule.widened, hone, toInt_step]⟩

theorem deciding?_widened (rules : IndentRules) (width : UInt16) (site : IndentSite) :
    (rules.widened width).deciding? site = (rules.deciding? site).map (·.widened width) :=
  List.find?_map

section Pass

variable {rules : IndentRules} {tree : Tree} {number : Nat} {line : Line}

variable (rules tree) in
def columnAt (number : Nat) (width : UInt16) : Nat :=
  ((rules.widened width).columns tree)[number]?.getD 0

theorem columns_eq_columnAt (hnumber : number < tree.lines.count) (width : UInt16) :
    ((rules.widened width).columns tree)[number]? = some (rules.columnAt tree number width) := by
  have hlength : number < ((rules.widened width).columns tree).length := by
    rw [length_columns]
    exact hnumber
  rw [columnAt, List.getElem?_eq_getElem hlength]
  rfl

section Line

variable (hline : tree.lines.line? number = some line)
  (habove : ∀ row, row < number → IsStepped (rules.columnAt tree row))
include hline habove

theorem isStepped_lineColumn (row : Nat) :
    IsStepped fun width => ((rules.widened width).siteOf tree number line).lineColumn row := by
  have hnumber : number < tree.lines.count := (List.getElem?_eq_some_iff.1 hline).1
  by_cases hlt : row < number
  · have hcolumn : (fun width => ((rules.widened width).siteOf tree number line).lineColumn row) =
        rules.columnAt tree row := by
      funext width
      exact lineColumn_siteOf _ tree line hlt (columns_eq_columnAt (Nat.lt_trans hlt hnumber) width)
    rw [hcolumn]
    exact habove row hlt
  · have hcolumn : ∀ width, ((rules.widened width).siteOf tree number line).lineColumn row =
        (tree.lines.content row).indentation := fun width => if_neg hlt
    simp only [hcolumn]
    exact isStepped_const _

theorem isStepped_nodeColumn (id : NodeId) :
    IsStepped fun width => ((rules.widened width).siteOf tree number line).nodeColumn id :=
  isStepped_lineColumn hline habove (tree.startLine id)

theorem readsSteps_map_nodeColumn (node : Option NodeId) :
    ReadsSteps fun width =>
      node.map ((rules.widened width).siteOf tree number line).nodeColumn := by
  cases node with
  | none => exact .inl fun _ => rfl
  | some id => exact .inr ⟨_, 0, isStepped_nodeColumn hline habove id, fun _ => rfl⟩

theorem readsSteps_anchor (anchor : Anchor) :
    ReadsSteps fun width => anchor.column? ((rules.widened width).siteOf tree number line) := by
  cases anchor with
  | margin => exact .inr ⟨_, 0, isStepped_const 0, fun _ => rfl⟩
  | parentLine =>
      exact readsSteps_map_nodeColumn hline habove (IndentSite.ofLine tree [] number line).parent
  | grandParentLine =>
      exact readsSteps_map_nodeColumn hline habove
        (IndentSite.ofLine tree [] number line).grandParent
  | commentAbove =>
      cases number with
      | zero => exact .inl fun _ => rfl
      | succ above =>
          obtain ⟨more, hmore⟩ := CommentMarker.exists_columnBelow_eq_add
            (tree.lines.content above).unindented
            (Text.trimStart (tree.lines.content (above + 1)))
          refine .inr ⟨_, more, isStepped_lineColumn hline habove above, fun width => ?_⟩
          have hsite : ((rules.widened width).siteOf tree (above + 1) line).line = above + 1 := rfl
          exact (IndentSite.commentColumn?_of_line_eq hsite).trans (congrArg some (hmore _))
  | current => exact .inr ⟨_, 0, isStepped_lineColumn hline habove number, fun _ => rfl⟩

/-- **One step of the passes at all widths.** Below lines that grow by steps, a line does so too. -/
theorem isStepped_column (hcounts : rules.CountsSteps) :
    IsStepped fun width =>
      (rules.widened width).column ((rules.widened width).siteOf tree number line) := by
  have hdeciding : ∀ width,
      (rules.widened width).deciding? ((rules.widened width).siteOf tree number line) =
        (rules.deciding? (.ofLine tree [] number line)).map (·.widened width) := by
    intro width
    rw [deciding?_widened, siteOf, (IndentSite.ofLine_agrees tree _ number line).deciding?_eq]
  simp only [column_eq, hdeciding]
  cases hrule : rules.deciding? (.ofLine tree [] number line) with
  | none =>
      have hparent : ∀ width, ((rules.widened width).siteOf tree number line).parent =
          (IndentSite.ofLine tree [] number line).parent := fun _ => rfl
      simp only [Option.map_none, hparent]
      cases (IndentSite.ofLine tree [] number line).parent with
      | none => exact isStepped_const 0
      | some id => exact isStepped_nodeColumn hline habove id
  | some rule =>
      obtain ⟨steps, hsteps⟩ := hcounts rule (List.mem_of_find?_eq_some hrule)
      rcases readsSteps_anchor hline habove rule.anchor with hnone | ⟨column, more, hcolumn, hsome⟩
      · simp only [Option.map_some, IndentRule.widened, hnone]
        exact isStepped_const 0
      · simp only [Option.map_some, IndentRule.widened, hsome]
        exact hcolumn.shift more hsteps

end Line

theorem columnAt_of_line (hline : tree.lines.line? number = some line)
    (hblank : line.isBlank = false) :
    rules.columnAt tree number = fun width =>
      (rules.widened width).column ((rules.widened width).siteOf tree number line) := by
  funext width
  rw [columnAt, column_of_line hline hblank]
  rfl

/-- Behind the last line and on a blank one there is nothing to be moved. -/
theorem columnAt_of_no_text
    (hnone : ¬ ∃ line, tree.lines.line? number = some line ∧ line.isBlank = false) :
    rules.columnAt tree number = fun _ => 0 := by
  funext width
  cases hline : tree.lines.line? number with
  | none =>
      have hcount : tree.lines.count ≤ number := List.getElem?_eq_none_iff.1 hline
      rw [columnAt, List.getElem?_eq_none (by rw [length_columns]; exact hcount)]
      rfl
  | some line =>
      have hblank : line.isBlank = true := by
        by_contra htext
        exact hnone ⟨line, hline, Bool.eq_false_iff.2 htext⟩
      rw [columnAt, columns_of_isBlank hline hblank]
      rfl

theorem isStepped_columnAt (hcounts : rules.CountsSteps) (number : Nat) :
    IsStepped (rules.columnAt tree number) := by
  -- By induction on the line: what is read above it grows by steps.
  induction number using Nat.strongRecOn with
  | ind number ih =>
      by_cases htext : ∃ line, tree.lines.line? number = some line ∧ line.isBlank = false
      · obtain ⟨line, hline, hblank⟩ := htext
        rw [columnAt_of_line hline hblank]
        exact isStepped_column hline ih hcounts
      · rw [columnAt_of_no_text htext]
        exact isStepped_const 0

end Pass

/-- **Columns are affine in the width.** For every line there are the column at width nothing and a
number of steps, and at any width the line goes in from there by so many times the width, as far as
columns are counted. So a larger width moves no line to the left. -/
theorem columns_affine (tree : Tree) :
    ∃ base steps : Nat → Nat, ∀ number, number < tree.lines.count →
      (∀ width, ((hcl width).columns tree)[number]? =
        some (steppedColumn (base number) (steps number) width)) ∧
      (∀ width, base number + steps number * width.toNat < UInt64.size →
        ((hcl width).columns tree)[number]? = some (base number + steps number * width.toNat)) ∧
      (∀ narrow wide, narrow ≤ wide → ∃ left right,
        ((hcl narrow).columns tree)[number]? = some left ∧
          ((hcl wide).columns tree)[number]? = some right ∧ left ≤ right) := by
  have hstepped : ∀ number, IsStepped ((hcl 1).columnAt tree number) :=
    isStepped_columnAt countsSteps_hcl
  choose base steps hcolumn using hstepped
  refine ⟨base, steps, fun number hnumber => ?_⟩
  have hcolumns : ∀ width, ((hcl width).columns tree)[number]? =
      some (steppedColumn (base number) (steps number) width) := by
    intro width
    rw [hcl_eq_widened, columns_eq_columnAt hnumber, hcolumn]
  refine ⟨hcolumns, fun width hfits => ?_, fun narrow wide hle => ?_⟩
  · rw [hcolumns, steppedColumn_eq hfits]
  · exact ⟨_, _, hcolumns narrow, hcolumns wide, steppedColumn_mono _ _ hle⟩

/-- Two widths tell the column at another one, here of the second line of a comment in a block. -/
theorem columns_affine_flushComment :
    ((hcl 0).columns flushComment)[2]? = some 3 ∧ ((hcl 1).columns flushComment)[2]? = some 4 ∧
      ((hcl 65535).columns flushComment)[2]? = some 65538 := by
  obtain ⟨base, steps, haffine⟩ := columns_affine flushComment
  obtain ⟨hstepped, hfits, -⟩ := haffine 2 (by decide)
  have hzero : ((hcl 0).columns flushComment)[2]? = some 3 := by decide
  have hone : ((hcl 1).columns flushComment)[2]? = some 4 := by decide
  have hbase : base 2 = 3 := by
    have hcolumn := Option.some.inj ((hstepped 0).symm.trans hzero)
    simp only [steppedColumn, UInt16.toNat_zero] at hcolumn
    omega
  have hsteps : steps 2 = 1 := by
    have hcolumn := Option.some.inj ((hstepped 1).symm.trans hone)
    simp only [steppedColumn, UInt16.toNat_one, hbase] at hcolumn
    have hcap : UInt64.size = 18446744073709551616 := rfl
    omega
  rw [hbase, hsteps] at hfits
  exact ⟨hzero, hone, hfits 65535 (by decide)⟩

end IndentRules

end HclEdit
