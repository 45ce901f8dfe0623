import HclEdit.Indent.Reindent

/-!
# The columns of a pass, line by line

A pass gives each line the column that the rules have for it once all lines above have theirs.
-/

namespace HclEdit

theorem LineTable.content_of_line?_eq {table : LineTable} {number : Nat} {line : Line}
    (hline : table.line? number = some line) : table.content number = line.content := by
  rw [content, hline]
  rfl

theorem shiftColumn_zero (column : Nat) : shiftColumn column 0 = min column (UInt64.size - 1) := by
  rw [shiftColumn, Int32.toInt_zero, Int.add_zero, Int.toNat_natCast]

namespace IndentRules

variable (rules : IndentRules) (tree : Tree)

def assign (assigned : List Nat) (lines : List Line) : List Nat :=
  lines.foldl (fun assigned line => assigned ++ [rules.nextColumn tree assigned line]) assigned

theorem columns_eq_assign : rules.columns tree = rules.assign tree [] tree.lines.lines := rfl

theorem assign_append (assigned : List Nat) (front back : List Line) :
    rules.assign tree assigned (front ++ back) =
      rules.assign tree (rules.assign tree assigned front) back :=
  List.foldl_append

theorem assign_cons (assigned : List Nat) (line : Line) (rest : List Line) :
    rules.assign tree assigned (line :: rest) =
      rules.assign tree (assigned ++ [rules.nextColumn tree assigned line]) rest := rfl

/-- Columns once assigned stay. -/
theorem exists_assign_eq_append (assigned : List Nat) (lines : List Line) :
    ∃ more, rules.assign tree assigned lines = assigned ++ more ∧ more.length = lines.length := by
  induction lines generalizing assigned with
  | nil => exact ⟨[], (List.append_nil assigned).symm, rfl⟩
  | cons line rest ih =>
      obtain ⟨more, hmore, hlength⟩ := ih (assigned ++ [rules.nextColumn tree assigned line])
      refine ⟨rules.nextColumn tree assigned line :: more, ?_, by simp [hlength]⟩
      rw [assign_cons, hmore, List.append_assoc, List.singleton_append]

variable {rules tree} in
/-- **One step of a pass.** A line gets the next column after those of the lines above it. -/
theorem getElem?_columns {number : Nat} {line : Line}
    (hline : tree.lines.line? number = some line) :
    (rules.columns tree)[number]? =
      some (rules.nextColumn tree ((rules.columns tree).take number) line) := by
  obtain ⟨hlt, hget⟩ := List.getElem?_eq_some_iff.1 hline
  have hsplit : tree.lines.lines =
      tree.lines.lines.take number ++ line :: tree.lines.lines.drop (number + 1) := by
    rw [← hget, ← List.drop_eq_getElem_cons hlt, List.take_append_drop]
  obtain ⟨front, hfront, hlength⟩ :=
    rules.exists_assign_eq_append tree [] (tree.lines.lines.take number)
  rw [List.nil_append] at hfront
  rw [List.length_take_of_le (Nat.le_of_lt hlt)] at hlength
  obtain ⟨more, hmore, -⟩ := rules.exists_assign_eq_append tree
    (front ++ [rules.nextColumn tree front line]) (tree.lines.lines.drop (number + 1))
  have hcolumns : rules.columns tree = front ++ rules.nextColumn tree front line :: more := by
    rw [columns_eq_assign, congrArg (rules.assign tree []) hsplit, assign_append, hfront,
      assign_cons, hmore, List.append_assoc, List.singleton_append]
  have htake : (rules.columns tree).take number = front := by
    rw [hcolumns, ← hlength, List.take_left]
  rw [htake, hcolumns, ← hlength, List.getElem?_append_right (Nat.le_refl _), Nat.sub_self]
  rfl

variable {rules tree} in
theorem exists_columns_of_lt {row number column : Nat}
    (hcolumn : (rules.columns tree)[number]? = some column) (hlt : row < number) :
    ∃ above, (rules.columns tree)[row]? = some above :=
  have hnumber := (List.getElem?_eq_some_iff.1 hcolumn).1
  ⟨_, List.getElem?_eq_getElem (Nat.lt_trans hlt hnumber)⟩

variable {rules tree} in
theorem exists_line?_of_columns {number column : Nat}
    (hcolumn : (rules.columns tree)[number]? = some column) :
    ∃ line, tree.lines.line? number = some line := by
  have hnumber := (List.getElem?_eq_some_iff.1 hcolumn).1
  rw [length_columns] at hnumber
  exact ⟨_, List.getElem?_eq_getElem hnumber⟩

variable {rules tree} in
theorem columns_of_isBlank {number : Nat} {line : Line}
    (hline : tree.lines.line? number = some line) (hblank : line.isBlank = true) :
    (rules.columns tree)[number]? = some 0 := by
  rw [getElem?_columns hline, nextColumn, if_pos hblank]

/-- What the rules are asked about a line during a pass. -/
def siteOf (number : Nat) (line : Line) : IndentSite :=
  .ofLine tree ((rules.columns tree).take number) number line

variable {rules tree} in
theorem column_of_line {number : Nat} {line : Line}
    (hline : tree.lines.line? number = some line) (hblank : line.isBlank = false) :
    (rules.columns tree)[number]? = some (rules.column (rules.siteOf tree number line)) := by
  have hlt : number < tree.lines.count := (List.getElem?_eq_some_iff.1 hline).1
  have hlength : ((rules.columns tree).take number).length = number := by
    rw [List.length_take, length_columns, Nat.min_eq_left (Nat.le_of_lt hlt)]
  rw [getElem?_columns hline, nextColumn, if_neg (Bool.eq_false_iff.1 hblank), hlength, siteOf]

/-- A line above is seen at the column that it was given. -/
theorem lineColumn_siteOf {number above column : Nat} (line : Line) (habove : above < number)
    (hcolumn : (rules.columns tree)[above]? = some column) :
    (rules.siteOf tree number line).lineColumn above = column := by
  have hassigned : ((rules.columns tree).take number)[above]? = some column := by
    rw [List.getElem?_take_of_lt habove, hcolumn]
  have hsite : (rules.siteOf tree number line).lineColumn above =
      if above < number then
        ((rules.columns tree).take number)[above]?.getD (tree.lines.content above).indentation
      else (tree.lines.content above).indentation := rfl
  rw [hsite, if_pos habove, hassigned, Option.getD_some]

variable {tree} in
theorem lineColumn_ofLine_self {number : Nat} {line : Line} (assigned : List Nat)
    (hline : tree.lines.line? number = some line) :
    (IndentSite.ofLine tree assigned number line).lineColumn number =
      line.content.indentation := by
  have hsite : (IndentSite.ofLine tree assigned number line).lineColumn number =
      if number < number then assigned[number]?.getD (tree.lines.content number).indentation
      else (tree.lines.content number).indentation := rfl
  rw [hsite, if_neg (Nat.lt_irrefl number), LineTable.content_of_line?_eq hline]

theorem lineColumn_siteOf_self {number : Nat} {line : Line}
    (hline : tree.lines.line? number = some line) :
    (rules.siteOf tree number line).lineColumn number = line.content.indentation :=
  lineColumn_ofLine_self _ hline

end IndentRules

/-- The column of a line below a line with the given content, which starts in a column. -/
def CommentMarker.columnBelow (column : Nat) (content next : Text) : Nat :=
  match CommentMarker.at? content with
  | none => column
  | some marker => column + marker.continuation (content.drop marker.text.length) next

theorem CommentMarker.columnBelow_of_isBlankText {column : Nat} {content next : Text}
    (hblank : Text.isBlankText content = true) :
    columnBelow column content.unindented next = column := by
  have hmarker : CommentMarker.at? content.unindented = none := by
    refine List.find?_eq_none.2 fun marker _ hfound => ?_
    obtain ⟨rest, hrest⟩ := List.isPrefixOf_iff_prefix.1 hfound
    have hall : marker.text.all Text.isBlank = true := by
      refine List.all_eq_true.2 fun c hc => ?_
      have hmem : c ∈ content.unindented := hrest ▸ List.mem_append_left rest hc
      exact List.all_eq_true.1 hblank c (List.dropWhile_subset _ hmem)
    cases marker <;> exact absurd hall Bool.false_ne_true
  rw [columnBelow, hmarker]

theorem IndentSite.commentColumn?_of_line_eq {site : IndentSite} {above : Nat}
    (hline : site.line = above + 1) :
    site.commentColumn? = some (CommentMarker.columnBelow (site.lineColumn above)
      (site.tree.lines.content above).unindented
      (Text.trimStart (site.tree.lines.content (above + 1)))) := by
  unfold commentColumn? CommentMarker.columnBelow
  rw [hline]
  dsimp only
  cases CommentMarker.at? (site.tree.lines.content above).unindented <;> rfl

namespace IndentRules

variable {rules : IndentRules} {tree : Tree}

/-- A comment is looked for in the line above as it is written, but counted from its new column. -/
theorem commentColumn?_siteOf {above column : Nat} {line next : Line}
    (hline : tree.lines.line? above = some line) (hnext : tree.lines.line? (above + 1) = some next)
    (hcolumn : (rules.columns tree)[above]? = some column) :
    (rules.siteOf tree (above + 1) next).commentColumn? =
      some (CommentMarker.columnBelow column line.content.unindented
        (Text.trimStart next.content)) := by
  rw [← LineTable.content_of_line?_eq hline, ← LineTable.content_of_line?_eq hnext,
    ← lineColumn_siteOf rules tree next (Nat.lt_succ_self above) hcolumn]
  exact IndentSite.commentColumn?_of_line_eq rfl

end IndentRules

end HclEdit
