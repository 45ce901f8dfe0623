import HclEdit.Proofs.Indent.Nesting
import HclEdit.Proofs.Lines.Points
import HclEdit.Proofs.Tree.Outermost

/-!
# Asking about a node and about its line

A line that begins with a node is asked about the first of the nodes that begin there, and that node
starts on no other line than this one. Asking for the node or for the line thus puts the same
question to the rules, whatever they are.
-/

namespace HclEdit

namespace Line

variable {line : Line} {offset : Nat}

/-- What is not blank begins at an offset: all that stands before it in the line is blank. -/
def BeginsAt (line : Line) (offset : Nat) : Prop :=
  ∃ margin c rest, line.content = margin ++ c :: rest ∧
    (∀ space ∈ margin, Text.isBlank space = true) ∧ Text.isBlank c = false ∧
    offset = line.start + Text.byteLength margin

theorem BeginsAt.isBlank_eq_false (hbegins : line.BeginsAt offset) : line.isBlank = false := by
  obtain ⟨margin, c, rest, hcontent, -, hc, -⟩ := hbegins
  rw [isBlank, hcontent, Text.isBlankText, List.all_append, List.all_cons, hc, Bool.false_and,
    Bool.and_false]

theorem BeginsAt.eq_firstOffset (hbegins : line.BeginsAt offset) : offset = line.firstOffset := by
  obtain ⟨margin, c, rest, hcontent, hmargin, hc, rfl⟩ := hbegins
  have htrim : Text.trimStart line.content = c :: rest := by
    rw [hcontent, Text.trimStart_append hmargin, Text.trimStart,
      List.dropWhile_cons_of_neg (by simp [hc])]
  have hlength : Text.byteLength line.content =
      Text.byteLength margin + Text.byteLength (c :: rest) := by
    rw [hcontent, Text.byteLength_append]
  rw [firstOffset, htrim]
  omega

theorem beginsAt_firstOffset (hblank : line.isBlank = false) : line.BeginsAt line.firstOffset := by
  obtain ⟨margin, hcontent, hmargin⟩ := Text.exists_append_trimStart line.content
  cases htrim : Text.trimStart line.content with
  | nil =>
      have hall : line.isBlank = true := Text.isBlankText_iff.2 htrim
      exact absurd hall (by simp [hblank])
  | cons c rest =>
      rw [htrim] at hcontent
      have hlength : Text.byteLength line.content =
          Text.byteLength margin + Text.byteLength (c :: rest) := by
        rw [← Text.byteLength_append, ← hcontent]
      refine ⟨margin, c, rest, hcontent, hmargin, Text.isBlank_of_trimStart htrim, ?_⟩
      rw [firstOffset, htrim]
      omega

theorem beginsAt_iff : line.BeginsAt offset ↔ line.isBlank = false ∧ offset = line.firstOffset := by
  constructor
  · exact fun hbegins => ⟨hbegins.isBlank_eq_false, hbegins.eq_firstOffset⟩
  · rintro ⟨hblank, rfl⟩
    exact beginsAt_firstOffset hblank

end Line

/-- The row of an offset that a line covers is the number of the line. -/
theorem LineTable.rowOf_eq_of_within {text : Text} {number offset : Nat} {line : Line}
    (hline : (ofText text).line? number = some line) (hstart : line.start ≤ offset)
    (hstop : offset < line.stop) : (ofText text).rowOf offset = number := by
  obtain ⟨found, hfound, hbefore⟩ := exists_line?_rowOf text offset
  apply Nat.le_antisymm
  · by_contra hlater
    have hbehind : line.stop ≤ found.start := stop_le_start hline hfound (Nat.lt_of_not_le hlater)
    omega
  · exact (le_rowOf_iff hline offset).2 hstart

theorem Tree.startLine_eq_of_beginsAt {tree : Tree} {number offset : Nat} {line : Line}
    {id : NodeId} (hline : tree.lines.line? number = some line) (hbegins : line.BeginsAt offset)
    (hstart : (tree.span id).start = offset) : tree.startLine id = number := by
  rw [tree.lines_eq] at hline
  rw [startLine, hstart, tree.lines_eq, hbegins.eq_firstOffset]
  apply LineTable.rowOf_eq_of_within hline
  · exact line.start_le_firstOffset
  · exact Line.firstOffset_lt_stop hbegins.isBlank_eq_false

/-- The site of a line is that of the outermost node at its beginning. -/
theorem IndentSite.ofLine_eq_ofNode {tree : Tree} {number offset : Nat} {line : Line} {id : NodeId}
    (hline : tree.lines.line? number = some line) (hbegins : line.BeginsAt offset)
    (hsearch : tree.outermostStartingAt? offset = some id) (hid : tree.StartsAt offset id) :
    ofLine tree [] number line = ofNode tree id := by
  obtain ⟨hblank, rfl⟩ := Line.beginsAt_iff.1 hbegins
  rw [ofLine_of_outermost hblank hsearch, ofNode,
    Tree.startLine_eq_of_beginsAt hline hbegins hid.2.2.1]

namespace IndentRules

theorem columnOfLine_of_count_le (rules : IndentRules) {tree : Tree} {number : Nat}
    (hcount : tree.lines.count ≤ number) : rules.columnOfLine tree number = 0 := by
  have hline : tree.lines.line? number = none := List.getElem?_eq_none hcount
  rw [columnOfLine, hline]
  rfl

/-- **A line is where its first node is.** Where nodes that are not empty begin with a line of a
built tree, every table gives the line the column of the first of them, and it gives column zero to
a line behind the last. -/
theorem columnOfLine_eq_columnOfNode (rules : IndentRules) {source : Text} {calls : List Draft.Call}
    {tree : Tree} (hbuild : Tree.build source calls = .ok tree) :
    (∀ number line offset, tree.lines.line? number = some line → line.BeginsAt offset →
      (∃ other, tree.StartsAt offset other) →
      ∃ id, IsLeast {other | tree.StartsAt offset other} id ∧
        rules.columnOfLine tree number = rules.columnOfNode tree id) ∧
      ∀ number, tree.lines.count ≤ number → rules.columnOfLine tree number = 0 := by
  have hnested := Tree.nested_build hbuild
  have hsize : 0 < tree.size := (Tree.arranged_build hbuild).nonempty
  refine ⟨fun number line offset hline hbegins hstarts => ?_,
    fun number => rules.columnOfLine_of_count_le⟩
  obtain ⟨other, hother⟩ := hstarts
  obtain ⟨id, hsearch, -⟩ := hnested.exists_outermostStartingAt? hother
  have hleast := (hnested.outermostStartingAt?_eq_some_iff hsize).1 hsearch
  refine ⟨id, hleast, ?_⟩
  calc rules.columnOfLine tree number
      = rules.column (.ofLine tree [] number line) := by rw [columnOfLine, hline]; rfl
    _ = rules.column (.ofNode tree id) :=
        congrArg _ (IndentSite.ofLine_eq_ofNode hline hbegins hsearch hleast.1)
    _ = rules.columnOfNode tree id := rfl

/-- A line in a block starts with two blanks that are no spaces, and an empty node comes before the
others there. -/
def spacedCalls : List Draft.Call :=
  [.opening "config_file" ⟨0, 15⟩, .opening "body" ⟨0, 15⟩, .opening "block" ⟨0, 15⟩,
    .leaf "identifier" ⟨0, 1⟩, .leaf "block_start" ⟨2, 3⟩, .leaf "comment" ⟨9, 9⟩,
    .opening "body" ⟨9, 13⟩, .opening "attribute" ⟨9, 13⟩, .leaf "identifier" ⟨9, 11⟩,
    .leaf "expression" ⟨12, 13⟩, .closing, .closing, .leaf "block_end" ⟨14, 15⟩, .closing, .closing,
    .closing]

def spacedSource : Text :=
  "b \x7b\n\u00a0\u00a0 \u00e9=1\n\x7d".toList

def spacedTree : Tree :=
  (spacedCalls.foldl Draft.call (.new spacedSource)).tree

theorem columnOfLine_spacedTree :
    Tree.build spacedSource spacedCalls = .ok spacedTree ∧
      (∃ line, spacedTree.lines.line? 1 = some line ∧ line.BeginsAt 9) ∧
      spacedTree.StartsAt 9 8 ∧ IsLeast {other | spacedTree.StartsAt 9 other} 6 ∧
      standard.columnOfLine spacedTree 1 = standard.columnOfNode spacedTree 6 ∧
      standard.columnOfNode spacedTree 6 = 2 ∧ standard.columnOfLine spacedTree 3 = 0 := by
  have hbuild : Tree.build spacedSource spacedCalls = .ok spacedTree := rfl
  have hline : spacedTree.lines.line? 1 =
      some ⟨4, ['\u00a0', '\u00a0', ' ', '\u00e9', '=', '1'], .newline⟩ := by decide
  have hbegins : Line.BeginsAt ⟨4, ['\u00a0', '\u00a0', ' ', '\u00e9', '=', '1'], .newline⟩ 9 := by
    rw [Line.beginsAt_iff]
    decide
  have hstarts : spacedTree.StartsAt 9 8 := by decide
  obtain ⟨hagree, hbeyond⟩ := columnOfLine_eq_columnOfNode standard hbuild
  obtain ⟨id, hleast, hcolumn⟩ := hagree 1 _ 9 hline hbegins ⟨8, hstarts⟩
  have hsix : IsLeast {other | spacedTree.StartsAt 9 other} 6 := by
    refine ⟨by decide, fun other hother => ?_⟩
    have hbelow : ∀ other < 6, ¬ spacedTree.StartsAt 9 other := by decide
    exact Nat.le_of_not_lt fun hlt => hbelow other hlt hother
  rw [hleast.unique hsix] at hcolumn
  exact ⟨hbuild, ⟨_, hline, hbegins⟩, hstarts, hsix, hcolumn, by decide, hbeyond 3 (by decide)⟩

end IndentRules

end HclEdit
