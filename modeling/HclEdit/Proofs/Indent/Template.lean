import HclEdit.Proofs.Indent.Reindent
import HclEdit.Proofs.Indent.Table
import HclEdit.Tree.Draft

/-!
# Lines inside a template

What stands right below a heredoc or another template keeps its column under the default table,
whatever its width, and a line that keeps its column is written as it is. Blank lines are the
exception: a pass empties them without asking the table, which would keep them.
-/

namespace HclEdit

/-- The kinds of nodes whose text is left to the author. -/
def IndentRules.templates : List String :=
  ["heredoc_template", "template_literal"]

/-- A place right below a template where no delimiter stands. -/
structure IndentSite.InTemplate (site : IndentSite) : Prop where
  parent : ∃ parent, site.parent = some parent ∧ site.tree.kind parent ∈ IndentRules.templates
  node : ∀ node ∈ site.node, site.tree.kind node ∉ IndentRules.delimiters

theorem Line.indentation_lt {tree : Tree} {number : Nat} {line : Line}
    (hsize : tree.source.length < UInt64.size) (hline : tree.lines.line? number = some line) :
    line.content.indentation < UInt64.size := by
  have hmem : line ∈ (LineTable.ofText tree.source).lines := by
    rw [← tree.lines_eq]
    exact List.mem_of_getElem? hline
  have hsublist : line.text.Sublist tree.source := by
    conv => rhs; rw [← LineTable.flatMap_text_ofText tree.source]
    exact sublist_flatMap_of_mem Line.text hmem
  calc line.content.indentation
      ≤ line.content.length := (List.takeWhile_prefix _).length_le
    _ ≤ line.text.length := by simp [Line.text]
    _ ≤ tree.source.length := hsublist.length_le
    _ < UInt64.size := hsize

namespace IndentRules

variable (width : UInt16)

theorem column_of_inTemplate {site : IndentSite} (hsite : site.InTemplate) :
    (hcl width).column site = shiftColumn (site.lineColumn site.line) 0 := by
  obtain ⟨⟨parent, hparent, hkind⟩, hnode⟩ := hsite
  have hdelimiter : (Matcher.nodeIsAny ["block_end", "object_end", "tuple_end", ")",
      "block_start"]).holds site = false := by
    cases hsome : site.node with
    | none => exact Matcher.not_holds_nodeIsAny hsome _
    | some node => exact not_holds_delimiters hsome (hnode node hsome)
  have hcomment : site.tree.kind parent ≠ "comment" := by
    intro heq
    rw [heq] at hkind
    exact absurd hkind (by decide)
  have htemplate : (Matcher.parentIsAny ["heredoc_template", "template_literal"]).holds site =
      true := by
    rw [Matcher.holds_parentIsAny hparent]
    exact decide_eq_true hkind
  simp [column, hcl, IndentRule.column?, hdelimiter, htemplate, Matcher.holds, Anchor.column?,
    hparent, hcomment]

section Line

variable {width} {tree : Tree} {number : Nat} {line : Line}
  (hsize : tree.source.length < UInt64.size) (hline : tree.lines.line? number = some line)
  (hsite : (IndentSite.ofLine tree [] number line).InTemplate)
include hsize hline hsite

theorem column_ofLine_of_inTemplate (assigned : List Nat) :
    (hcl width).column (.ofLine tree assigned number line) = line.content.indentation := by
  have hlt := Line.indentation_lt hsize hline
  have hsite' : (IndentSite.ofLine tree assigned number line).InTemplate :=
    ⟨hsite.parent, hsite.node⟩
  calc (hcl width).column (.ofLine tree assigned number line)
      = shiftColumn line.content.indentation 0 := by
        rw [column_of_inTemplate width hsite', ← lineColumn_ofLine_self assigned hline]
        rfl
    _ = line.content.indentation := by
        rw [shiftColumn_zero, Nat.min_eq_left (Nat.le_sub_one_of_lt hlt)]

theorem moved_of_inTemplate {column : Nat}
    (hcolumn : ((hcl width).columns tree)[number]? = some column) :
    line.moved column = if line.isBlank then [] else line.content := by
  cases hblank : line.isBlank with
  | true => exact Line.moved_of_isBlank hblank column
  | false =>
      rw [column_of_line hline hblank, siteOf,
        column_ofLine_of_inTemplate hsize hline hsite] at hcolumn
      exact (Line.moved_eq_content_iff hblank).2 (Option.some.inj hcolumn).symm

/-- **A line inside a template is left alone** by the default table unless it is blank. The query
for the line finds it in its column, and the pass writes it as it is; of a blank line it keeps the
ending alone. -/
theorem template_line_kept_iff :
    (hcl width).columnOfLine tree number = line.content.indentation ∧
      ∃ output, (LineTable.ofText ((hcl width).reindent tree)).line? number = some output ∧
        output.ending = line.ending ∧
        output.content = (if line.isBlank then [] else line.content) ∧
        (output.text = line.text ↔ line.isBlank = false ∨ line.content = []) := by
  constructor
  · rw [columnOfLine, hline]
    exact column_ofLine_of_inTemplate hsize hline hsite []
  · have hcolumn : ((hcl width).columns tree)[number]? = some _ := getElem?_columns hline
    have hmoved := moved_of_inTemplate hsize hline hsite hcolumn
    obtain ⟨start, houtput⟩ := line?_reindent hline hcolumn
    refine ⟨_, houtput, rfl, hmoved, ?_⟩
    rw [Line.text, Line.text, List.append_left_inj, hmoved]
    cases line.isBlank <;> simp [eq_comm]

end Line

/-! ### A heredoc with a line that is blank -/

def heredocCalls : List Draft.Call :=
  [.opening "config_file" ⟨0, 15⟩, .opening "body" ⟨0, 14⟩, .opening "attribute" ⟨0, 14⟩,
    .leaf "identifier" ⟨0, 1⟩, .leaf "=" ⟨2, 3⟩, .opening "expression" ⟨4, 14⟩,
    .opening "template_expr" ⟨4, 14⟩, .opening "heredoc_template" ⟨4, 14⟩,
    .leaf "heredoc_start" ⟨4, 6⟩, .leaf "heredoc_identifier" ⟨6, 7⟩,
    .leaf "template_literal" ⟨8, 12⟩, .leaf "heredoc_identifier" ⟨13, 14⟩, .closing, .closing,
    .closing, .closing, .closing, .closing]

def heredoc : Tree :=
  (heredocCalls.foldl Draft.call (.new "x = <<E\n\ta\n \nE\n".toList)).tree

theorem inTemplate_heredoc :
    (IndentSite.ofLine heredoc [] 1 ⟨8, ['\t', 'a'], .newline⟩).InTemplate ∧
      (IndentSite.ofLine heredoc [] 2 ⟨11, [' '], .newline⟩).InTemplate :=
  ⟨⟨⟨10, by decide +kernel⟩, by decide +kernel⟩, ⟨7, by decide +kernel⟩, by decide +kernel⟩

theorem template_line_kept_tabbed :
    (hcl 4).columnOfLine heredoc 1 = 1 ∧
      ∃ output, (LineTable.ofText ((hcl 4).reindent heredoc)).line? 1 = some output ∧
        output.text = ['\t', 'a', '\n'] := by
  obtain ⟨hcolumn, output, houtput, -, -, hkept⟩ := template_line_kept_iff
    (by decide +kernel : heredoc.source.length < UInt64.size)
    (by decide +kernel : heredoc.lines.line? 1 = some ⟨8, ['\t', 'a'], .newline⟩)
    inTemplate_heredoc.1
  exact ⟨hcolumn, output, houtput, hkept.2 (Or.inl rfl)⟩

/-- The blank line of the heredoc is emptied, although the query finds it in its column. -/
theorem reindent_heredoc_blank :
    Tree.build heredoc.source heredocCalls = .ok heredoc ∧
      heredoc.lines.line? 2 = some ⟨11, [' '], .newline⟩ ∧
      (IndentSite.ofLine heredoc [] 2 ⟨11, [' '], .newline⟩).InTemplate ∧
      standard.columnOfLine heredoc 2 = 1 ∧
      (LineTable.ofText (standard.reindent heredoc)).line? 2 = some ⟨11, [], .newline⟩ := by
  exact ⟨rfl, by decide +kernel, inTemplate_heredoc.2, by decide +kernel, by decide +kernel⟩

end IndentRules

end HclEdit
