import HclEdit.Proofs.Indent.Columns
import HclEdit.Proofs.Lines.Shape
import HclEdit.Proofs.Text.Indentation
import HclEdit.ParseTree.Walk

/-!
# Re-indenting keeps everything but leading whitespace

Moving a line to a column keeps its ending and what it holds behind its leading whitespace, whatever
the column is. The moved lines are therefore laid out as the source lines are, and come back as the
lines of the re-indented text.
-/

namespace HclEdit

namespace Line

/-- The content of a line moved to a column. -/
def moved (line : Line) (column : Nat) : Text :=
  if line.isBlank then []
  else if column = Text.indentation line.content then line.content
  else Text.padded column line.content

theorem reindented_eq (line : Line) (column : Nat) :
    line.reindented column = line.moved column ++ line.ending.text := by
  unfold reindented moved
  split
  · rfl
  · split <;> rfl

theorem moved_of_isBlank {line : Line} (hblank : line.isBlank = true) (column : Nat) :
    line.moved column = [] :=
  if_pos hblank

theorem indentation_moved {line : Line} (hblank : line.isBlank = false) (column : Nat) :
    Text.indentation (line.moved column) = column := by
  rw [moved, if_neg (Bool.eq_false_iff.1 hblank)]
  split
  · next hcolumn => exact hcolumn.symm
  · exact Text.indentation_padded column line.content

@[simp] theorem trimStart_moved (line : Line) (column : Nat) :
    Text.trimStart (line.moved column) = Text.trimStart line.content := by
  unfold moved
  split
  · next hblank => exact (Text.isBlankText_iff.1 hblank).symm
  · split
    · rfl
    · exact Text.trimStart_padded column line.content

theorem unindented_moved {line : Line} (hblank : line.isBlank = false)
    (hplain : line.content.unindented = Text.trimStart line.content) (column : Nat) :
    (line.moved column).unindented = line.content.unindented := by
  rw [moved, if_neg (Bool.eq_false_iff.1 hblank)]
  split
  · rfl
  · rw [Text.unindented_padded, hplain]

theorem isBlankText_moved (line : Line) (column : Nat) :
    Text.isBlankText (line.moved column) = line.isBlank := by
  rw [Bool.eq_iff_iff, Text.isBlankText_iff, trimStart_moved, isBlank, Text.isBlankText_iff]

theorem moved_eq_content_iff {line : Line} (hblank : line.isBlank = false) {column : Nat} :
    line.moved column = line.content ↔ column = Text.indentation line.content := by
  constructor
  · intro hmoved
    rw [← hmoved, indentation_moved hblank]
  · intro hcolumn
    rw [moved, if_neg (Bool.eq_false_iff.1 hblank), if_pos hcolumn]

theorem moved_of_content_eq {line other : Line} {column : Nat}
    (hcontent : other.content = line.moved column) : other.moved column = other.content := by
  have hother : other.isBlank = line.isBlank := by
    rw [isBlank, hcontent, isBlankText_moved]
  cases hblank : line.isBlank with
  | true =>
      rw [hblank] at hother
      rw [moved_of_isBlank hother, hcontent, moved_of_isBlank hblank]
  | false =>
      rw [hblank] at hother
      rw [moved_eq_content_iff hother, hcontent, indentation_moved hblank]

theorem newline_not_mem_moved {line : Line} (hnewline : '\n' ∉ line.content) (column : Nat) :
    '\n' ∉ line.moved column := by
  unfold moved
  split
  · exact List.not_mem_nil
  · split
    · exact hnewline
    · exact fun hmem => hnewline (Text.mem_of_mem_padded hmem (by decide))

/-- Padding a line cannot bring a carriage return to its end. -/
theorem getLast?_moved_ne {line : Line} (hreturn : line.content.getLast? ≠ some '\r')
    (column : Nat) : (line.moved column).getLast? ≠ some '\r' := by
  unfold moved
  split
  · exact nofun
  · next hblank =>
      split
      · exact hreturn
      · rw [Text.getLast?_padded (Bool.eq_false_iff.2 hblank)]
        exact hreturn

end Line

namespace LineTable

theorem isLaidOut_moved {lines : List Line} {columns : List Nat}
    (hlength : columns.length = lines.length) (hlines : IsLaidOut (lines.map Line.shape)) :
    IsLaidOut
      (List.zipWith (fun line column => (line.moved column, line.ending)) lines columns) := by
  induction lines generalizing columns with
  | nil => exact absurd hlines id
  | cons line rest ih =>
      obtain ⟨column, others, rfl⟩ := List.exists_cons_of_length_eq_add_one hlength
      have hlength' : others.length = rest.length := Nat.succ.inj hlength
      rw [List.zipWith_cons_cons]
      by_cases hrest : rest = []
      · subst hrest
        rw [List.length_eq_zero_iff.1 hlength']
        obtain ⟨hnewline, hending⟩ := hlines
        exact ⟨Line.newline_not_mem_moved hnewline column, hending⟩
      · have hmap : rest.map Line.shape ≠ [] := by simpa using hrest
        have hzip : List.zipWith (fun line column => (line.moved column, line.ending)) rest others ≠
            [] := by
          rw [← List.length_pos_iff, List.length_zipWith, hlength', Nat.min_self]
          exact List.length_pos_iff.2 hrest
        rw [List.map_cons] at hlines
        obtain ⟨hnewline, hending, hreturn, hlaid⟩ := (isLaidOut_cons hmap).1 hlines
        rw [isLaidOut_cons hzip]
        exact ⟨Line.newline_not_mem_moved hnewline column, hending,
          fun h => Line.getLast?_moved_ne (hreturn h) column, ih hlength' hlaid⟩

end LineTable

namespace IndentRules

variable (rules : IndentRules) (tree : Tree)

def movedLines : List (Text × LineEnding) :=
  List.zipWith (fun line column => (line.moved column, line.ending)) tree.lines.lines
    (rules.columns tree)

theorem reindent_eq : rules.reindent tree =
    (rules.movedLines tree).flatMap fun shape => shape.1 ++ shape.2.text := by
  have hreindented :
      Line.reindented = fun line column => line.moved column ++ line.ending.text := by
    funext line column
    exact line.reindented_eq column
  rw [reindent, movedLines, List.flatMap_def, List.map_zipWith, hreindented]

theorem isLaidOut_movedLines : LineTable.IsLaidOut (rules.movedLines tree) := by
  refine LineTable.isLaidOut_moved (rules.length_columns tree) ?_
  rw [tree.lines_eq]
  exact LineTable.isLaidOut_ofText tree.source

/-- The lines of the re-indented text are the source lines, each moved to its column. -/
theorem shape_reindent :
    (LineTable.ofText (rules.reindent tree)).lines.map Line.shape = rules.movedLines tree := by
  rw [reindent_eq, LineTable.shape_ofText (rules.isLaidOut_movedLines tree)]

theorem length_movedLines : (rules.movedLines tree).length = tree.lines.count := by
  rw [movedLines, List.length_zipWith, length_columns, LineTable.count, Nat.min_self]

theorem count_reindent :
    (LineTable.ofText (rules.reindent tree)).count = tree.lines.count := by
  have hlength := congrArg List.length (rules.shape_reindent tree)
  rw [List.length_map, length_movedLines] at hlength
  exact hlength

variable {rules tree} in
theorem line?_reindent {number column : Nat} {line : Line}
    (hline : tree.lines.line? number = some line)
    (hcolumn : (rules.columns tree)[number]? = some column) :
    ∃ start, (LineTable.ofText (rules.reindent tree)).line? number =
      some ⟨start, line.moved column, line.ending⟩ := by
  have hshape := congrArg (·[number]?) (rules.shape_reindent tree)
  simp only [movedLines, List.getElem?_map, List.getElem?_zipWith] at hshape
  rw [show tree.lines.lines[number]? = some line from hline, hcolumn] at hshape
  obtain ⟨other, hother, heq⟩ := Option.map_eq_some_iff.1 hshape
  obtain ⟨start, content, ending⟩ := other
  obtain ⟨rfl, rfl⟩ := Prod.mk.inj heq
  exact ⟨start, hother⟩

/-- Re-indenting changes nothing exactly when it leaves the content of every line as it is. -/
theorem reindent_eq_source_iff : rules.reindent tree = tree.source ↔
    ∀ number line column, tree.lines.line? number = some line →
      (rules.columns tree)[number]? = some column → line.moved column = line.content := by
  constructor
  · intro hreindent number line column hline hcolumn
    obtain ⟨start, houtput⟩ := line?_reindent hline hcolumn
    rw [hreindent, ← tree.lines_eq, hline] at houtput
    exact congrArg Line.content (Option.some.inj houtput).symm
  · intro hmoved
    have hlines : rules.movedLines tree = tree.lines.lines.map Line.shape := by
      refine List.ext_getElem? fun number => ?_
      rw [movedLines, List.getElem?_zipWith, List.getElem?_map]
      cases hline : tree.lines.lines[number]? with
      | none => rfl
      | some line =>
          have hcolumn : (rules.columns tree)[number]? = some _ := getElem?_columns hline
          have hcontent := hmoved number line _ hline hcolumn
          rw [hcolumn]
          exact congrArg (fun content => some (content, line.ending)) hcontent
    rw [reindent_eq, hlines, List.flatMap_map, tree.lines_eq]
    exact LineTable.flatMap_text_ofText tree.source

/-- **Re-indenting keeps everything but leading whitespace.** The lines stay the same in number, in
their endings and in what follows their leading whitespace. A blank line becomes empty, and any
other line is indented by the column assigned to it. -/
theorem lines_reindent :
    (LineTable.ofText (rules.reindent tree)).count = (LineTable.ofText tree.source).count ∧
      ∀ number line, (LineTable.ofText tree.source).line? number = some line →
        ∃ output column, (LineTable.ofText (rules.reindent tree)).line? number = some output ∧
          (rules.columns tree)[number]? = some column ∧
          output.ending = line.ending ∧
          Text.trimStart output.content = Text.trimStart line.content ∧
          if line.isBlank then output.content = []
          else Text.indentation output.content = column := by
  rw [← tree.lines_eq]
  constructor
  · exact rules.count_reindent tree
  · intro number line hline
    have hcolumn : (rules.columns tree)[number]? = some _ := getElem?_columns hline
    obtain ⟨start, houtput⟩ := line?_reindent hline hcolumn
    refine ⟨_, _, houtput, hcolumn, rfl, line.trimStart_moved _, ?_⟩
    split
    · next hblank => exact Line.moved_of_isBlank hblank _
    · next hblank => exact Line.indentation_moved (Bool.eq_false_iff.2 hblank) _

/-- Lines with a tab and a form feed in front, with nothing but spaces, and with two endings. -/
def mixedLines : Tree :=
  .ofParse ['\t', '\x0c', 'x', '\r', '\n', ' ', ' ', '\n', 'y']
    [⟨0, "config_file", ⟨0, 9⟩, true, false, false, false⟩]

theorem lines_reindent_mixedLines :
    (LineTable.ofText mixedLines.source).line? 0 =
        some ⟨0, ['\t', '\x0c', 'x'], .carriageReturnNewline⟩ ∧
      ∃ output column, (LineTable.ofText (standard.reindent mixedLines)).line? 0 = some output ∧
        (standard.columns mixedLines)[0]? = some column ∧
        output.ending = .carriageReturnNewline ∧ Text.trimStart output.content = ['x'] ∧
        Text.indentation output.content = column := by
  have hline : (LineTable.ofText mixedLines.source).line? 0 =
      some ⟨0, ['\t', '\x0c', 'x'], .carriageReturnNewline⟩ := rfl
  obtain ⟨output, column, houtput, hcolumn, hending, htrim, hindentation⟩ :=
    (lines_reindent standard mixedLines).2 0 _ hline
  exact ⟨hline, output, column, houtput, hcolumn, hending, htrim, hindentation⟩

end IndentRules

end HclEdit
