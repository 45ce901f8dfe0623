import HclEdit.Proofs.Lines.Points
import HclEdit.Proofs.Tree.Arranged
import Mathlib.Data.List.Forall2

/-!
# All damaged places are found

The search for damaged nodes takes note of a node before it looks at the mark on it, and then passes
over what lies below a node without the mark. Nothing is lost as long as no such node has a damaged
one below it. What lies below a node are the deeper nodes right behind it.
-/

namespace HclEdit

def ParseNode.isDamaged (node : ParseNode) : Bool :=
  node.isError || node.isMissing

namespace ParseTree

def MarksDamage : ParseTree → Prop
  | [] => True
  | node :: rest =>
      (node.hasError = false →
        ∀ below ∈ rest.takeWhile (node.depth < ·.depth), below.isDamaged = false) ∧
      MarksDamage rest

/-- The nodes with a mark are those that are damaged or have a damaged node below them. -/
def KnowsDamage : ParseTree → Prop
  | [] => True
  | node :: rest =>
      (node.hasError = true ↔
        ∃ inner ∈ node :: rest.takeWhile (node.depth < ·.depth), inner.isDamaged = true) ∧
      KnowsDamage rest

variable {parse : ParseTree}

theorem KnowsDamage.marksDamage (hknows : parse.KnowsDamage) : parse.MarksDamage := by
  induction parse with
  | nil => trivial
  | cons node rest ih =>
      refine ⟨fun hmark below hbelow => ?_, ih hknows.2⟩
      by_contra hdamaged
      have hmarked := hknows.1.2 ⟨below, List.mem_cons_of_mem _ hbelow, by simpa using hdamaged⟩
      rw [hmark] at hmarked
      exact absurd hmarked nofun

theorem MarksDamage.of_append {front back : ParseTree} (hmarks : MarksDamage (front ++ back)) :
    MarksDamage back := by
  induction front with
  | nil => exact hmarks
  | cons node front ih => exact ih hmarks.2

section Subtree

variable {node : ParseNode} {rest : ParseTree} (hmarks : MarksDamage (node :: rest))
include hmarks

theorem MarksDamage.behind : MarksDamage (rest.dropWhile (node.depth < ·.depth)) := by
  have hrest := hmarks.2
  rw [← List.takeWhile_append_dropWhile (p := (node.depth < ·.depth)) (l := rest)] at hrest
  exact hrest.of_append

/-- The damaged nodes behind an unmarked node are those behind its subtree. -/
theorem MarksDamage.filter_behind (hmark : node.hasError = false) :
    (rest.dropWhile (node.depth < ·.depth)).filter ParseNode.isDamaged =
      rest.filter ParseNode.isDamaged := by
  have hbelow : (rest.takeWhile (node.depth < ·.depth)).filter ParseNode.isDamaged = [] := by
    apply List.filter_eq_nil_iff.2
    intro below hmem
    exact Bool.eq_false_iff.1 (hmarks.1 hmark below hmem)
  symm
  calc rest.filter ParseNode.isDamaged
      = (rest.takeWhile (node.depth < ·.depth) ++
          rest.dropWhile (node.depth < ·.depth)).filter ParseNode.isDamaged := by
        rw [List.takeWhile_append_dropWhile]
    _ = (rest.dropWhile (node.depth < ·.depth)).filter ParseNode.isDamaged := by
        rw [List.filter_append, hbelow, List.nil_append]

end Subtree

theorem damagedBelow_some (floor : Nat) (parse : ParseTree) :
    damagedBelow (some floor) parse = damagedBelow none (parse.dropWhile (floor < ·.depth)) := by
  induction parse with
  | nil => rfl
  | cons node rest ih =>
      by_cases hdeeper : floor < node.depth
      · simp [damagedBelow, hdeeper, ih]
      · simp [damagedBelow, hdeeper]

theorem damaged_cons_of_marked {node : ParseNode} (hmark : node.hasError = true)
    (rest : ParseTree) :
    damaged (node :: rest) = if node.isDamaged then node :: damaged rest else damaged rest := by
  simp [damaged, damagedBelow, hmark, ParseNode.isDamaged]

theorem damaged_cons_of_unmarked {node : ParseNode} (hmark : node.hasError = false)
    (rest : ParseTree) :
    damaged (node :: rest) =
      if node.isDamaged then node :: damaged (rest.dropWhile (node.depth < ·.depth))
      else damaged (rest.dropWhile (node.depth < ·.depth)) := by
  simp [damaged, damagedBelow, hmark, ParseNode.isDamaged, damagedBelow_some]

/-- **Passing over unmarked subtrees loses nothing.** -/
theorem damaged_eq_filter (hmarks : parse.MarksDamage) :
    parse.damaged = parse.filter ParseNode.isDamaged := by
  -- By induction on the length: behind an unmarked node the search goes on where its subtree ends.
  induction hlength : parse.length using Nat.strongRecOn generalizing parse with
  | ind length ih =>
      cases parse with
      | nil => rfl
      | cons node rest =>
          have hshorter : rest.length < length := hlength ▸ Nat.lt_succ_self _
          rw [List.filter_cons]
          cases hmark : node.hasError with
          | true => rw [damaged_cons_of_marked hmark, ih rest.length hshorter hmarks.2 rfl]
          | false =>
              have hle : (rest.dropWhile (node.depth < ·.depth)).length ≤ rest.length :=
                (List.dropWhile_sublist _).length_le
              rw [damaged_cons_of_unmarked hmark,
                ih _ (Nat.lt_of_le_of_lt hle hshorter) hmarks.behind rfl,
                hmarks.filter_behind hmark]

/-- The mark on the root tells about the whole parse. -/
theorem KnowsDamage.hasErrors_iff (hknows : parse.KnowsDamage) (hpreorder : parse.IsPreorder) :
    parse.hasErrors = true ↔ ∃ node ∈ parse, node.isDamaged = true := by
  cases parse with
  | nil => exact absurd hpreorder id
  | cons root rest =>
      obtain ⟨hroot, hcontinues⟩ := hpreorder
      have hwhole : rest.takeWhile (root.depth < ·.depth) = rest := by
        apply List.takeWhile_eq_self_iff.2
        intro node hnode
        have hpos := hcontinues.depth_pos node hnode
        exact decide_eq_true (hroot ▸ hpos)
      have hmark := hknows.1
      rw [hwhole] at hmark
      exact hmark

end ParseTree

/-! ### What is told about a damaged node -/

theorem Point.rdropWhile_of_column_eq_zero {bytes : Bytes}
    (hcolumn : (Point.origin.advance bytes).column = 0) :
    bytes.rdropWhile (· ≠ Text.newline) = bytes := by
  rw [List.rdropWhile_eq_self_iff]
  intro hne
  by_cases hmem : Text.newline ∈ bytes
  · simp only [advance, hmem, if_true, List.length_eq_zero_iff, List.rtakeWhile_eq_nil_iff]
      at hcolumn
    exact hcolumn hne
  · simp [advance, hmem, origin] at hcolumn
    exact absurd hcolumn hne

namespace LineTable

/-- A column is counted from the end of the last line feed before the offset. -/
theorem column_pointOf (text : Text) (offset : Nat) :
    ((ofText text).pointOf offset).column =
      offset - (((Text.encode text).take offset).rdropWhile (· ≠ Text.newline)).length := by
  obtain ⟨line, front, tail, hline, -, htake, hlength, hfront, htail⟩ :=
    exists_take_eq_append text offset
  have hcolumn : (Point.origin.advance front).column = 0 := by rw [hfront]
  have hlines : (front ++ tail).rdropWhile (· ≠ Text.newline) = front := by
    clear htake
    induction tail using List.reverseRecOn with
    | nil =>
        rw [List.append_nil]
        exact Point.rdropWhile_of_column_eq_zero hcolumn
    | append_singleton tail byte ih =>
        rw [List.mem_append, List.mem_singleton, not_or] at htail
        rw [← List.append_assoc, List.rdropWhile_concat_pos _ _ _ (by simpa using Ne.symm htail.2)]
        exact ih htail.1
  rw [pointOf_eq text hline, htake, hlines, hlength]

end LineTable

/-- The nodes of a parse start at the points where they do in the source: the line feeds before a
node are counted, and the bytes from the last of them on. -/
def Document.KnowsPoints (document : Document) (startPoint : ParseNode → Point) : Prop :=
  ∀ node ∈ document.parse,
    let before := (Text.encode document.source).take node.span.start
    (startPoint node).row = before.count Text.newline ∧
      (startPoint node).column = node.span.start - (before.rdropWhile (· ≠ Text.newline)).length

/-- The lines of the source know the points. -/
theorem Document.knowsPoints_pointOf (document : Document) :
    document.KnowsPoints fun node => (LineTable.ofText document.source).pointOf node.span.start :=
  fun node _ => ⟨LineTable.rowOf_eq_count document.source node.span.start,
    LineTable.column_pointOf document.source node.span.start⟩

/-- A fault tells the span of a node, its line and column counted from one in 32 bits, and the kind
of a node that is missing. -/
structure SyntaxFault.Reports (source : Text) (node : ParseNode) (fault : SyntaxFault) : Prop where
  span_eq : fault.span = node.span
  line_eq : fault.line =
    min (((Text.encode source).take node.span.start).count Text.newline + 1) (UInt32.size - 1)
  column_eq : fault.column =
    min (node.span.start -
      (((Text.encode source).take node.span.start).rdropWhile (· ≠ Text.newline)).length + 1)
      (UInt32.size - 1)
  missing_iff : fault.message = "missing " ++ node.kind ↔ node.isMissing = true
  message_eq : node.isMissing = false → fault.message = "syntax error"

theorem SyntaxFault.reports_ofNode {document : Document} {startPoint : ParseNode → Point}
    (hpoints : document.KnowsPoints startPoint) {node : ParseNode} (hnode : node ∈ document.parse) :
    Reports document.source node (ofNode (startPoint node) node) where
  span_eq := rfl
  line_eq := congrArg oneBased (hpoints node hnode).1
  column_eq := congrArg oneBased (hpoints node hnode).2
  missing_iff := by
    have hmissing : s!"missing {node.kind}" = "missing " ++ node.kind := rfl
    have hother : "syntax error" ≠ "missing " ++ node.kind := by
      intro heq
      have hfirst := congrArg (fun text : String => text.toList.head?) heq
      simp at hfirst
    cases hnode : node.isMissing <;> simp [ofNode, hnode, hmissing, hother]
  message_eq := by
    intro hnode
    simp [ofNode, hnode]

theorem Document.errorsAt_eq_map (document : Document) (startPoint : ParseNode → Point)
    (hknows : document.parse.KnowsDamage) :
    document.errorsAt startPoint = (document.parse.filter ParseNode.isDamaged).map
      fun node => SyntaxFault.ofNode (startPoint node) node := by
  rw [← ParseTree.damaged_eq_filter hknows.marksDamage]
  rfl

/-- **Pruned error collection loses nothing.** In a parse whose marks tell which subtrees hold a
damaged node, and whose nodes are known to start where they do, the errors of a document are those
of its damaged nodes, in the order of the nodes and one for each. They are the same as by the lines
of the source. So there are none just when the root has no mark. -/
theorem Document.errors_scan (document : Document) (startPoint : ParseNode → Point)
    (hpreorder : document.parse.IsPreorder) (hknows : document.parse.KnowsDamage)
    (hpoints : document.KnowsPoints startPoint) :
    List.Forall₂ (SyntaxFault.Reports document.source)
        (document.parse.filter ParseNode.isDamaged) (document.errorsAt startPoint) ∧
      document.errorsAt startPoint = document.errors ∧
      (document.errorsAt startPoint = [] ↔ document.hasErrors = false) := by
  have herrors := document.errorsAt_eq_map startPoint hknows
  refine ⟨?scan, ?lines, ?none⟩
  case scan =>
    rw [herrors, List.forall₂_map_right_iff, List.forall₂_same]
    exact fun node hnode => SyntaxFault.reports_ofNode hpoints (List.mem_of_mem_filter hnode)
  case lines =>
    rw [herrors, Document.errors, document.errorsAt_eq_map _ hknows]
    refine List.map_congr_left fun node hnode => ?_
    have hmem := List.mem_of_mem_filter hnode
    have hrow := (hpoints node hmem).1.trans (document.knowsPoints_pointOf node hmem).1.symm
    have hcolumn := (hpoints node hmem).2.trans (document.knowsPoints_pointOf node hmem).2.symm
    rw [SyntaxFault.ofNode, SyntaxFault.ofNode, hrow, hcolumn]
  case none =>
    rw [herrors, List.map_eq_nil_iff, List.filter_eq_nil_iff, ← Bool.not_eq_true,
      Document.hasErrors, hknows.hasErrors_iff hpreorder]
    push Not
    rfl

/-- A label where a block has to have its name, with a brace put in before it. -/
def strayParse : ParseTree :=
  [⟨0, "ERROR", ⟨0, 20⟩, true, true, false, true⟩,
    ⟨1, "object_start", ⟨1, 1⟩, true, false, false, true⟩,
    ⟨2, "\x7b", ⟨1, 1⟩, false, false, true, true⟩,
    ⟨1, "ERROR", ⟨1, 5⟩, true, true, false, true⟩,
    ⟨2, "literal_value", ⟨1, 5⟩, true, false, false, false⟩,
    ⟨3, "string_lit", ⟨1, 5⟩, true, false, false, false⟩,
    ⟨4, "quoted_template_start", ⟨1, 2⟩, true, false, false, false⟩,
    ⟨4, "template_literal", ⟨2, 4⟩, true, false, false, false⟩,
    ⟨4, "quoted_template_end", ⟨4, 5⟩, true, false, false, false⟩,
    ⟨1, "object_start", ⟨6, 7⟩, true, false, false, false⟩,
    ⟨2, "\x7b", ⟨6, 7⟩, false, false, false, false⟩,
    ⟨1, "comment", ⟨8, 15⟩, true, false, false, false⟩]

def strayLabel : Document :=
  ⟨" \"é\" \x7b\n/* c */\n    ".toList, strayParse⟩

/-- The second line starts behind eight bytes. -/
def strayPoint (node : ParseNode) : Point :=
  if node.span.start < 8 then ⟨0, node.span.start⟩ else ⟨1, node.span.start - 8⟩

theorem Document.errors_scan_strayLabel :
    strayParse.IsPreorder ∧ strayParse.KnowsDamage ∧ strayLabel.KnowsPoints strayPoint ∧
      List.Forall₂ (SyntaxFault.Reports strayLabel.source)
        [⟨0, "ERROR", ⟨0, 20⟩, true, true, false, true⟩,
          ⟨2, "\x7b", ⟨1, 1⟩, false, false, true, true⟩,
          ⟨1, "ERROR", ⟨1, 5⟩, true, true, false, true⟩] (strayLabel.errorsAt strayPoint) ∧
      strayLabel.errorsAt strayPoint ≠ [] ∧ strayLabel.hasErrors = true := by
  have hpreorder : strayParse.IsPreorder := by
    simp [strayParse, ParseTree.IsPreorder, ParseTree.Continues]
  have hknows : strayParse.KnowsDamage := by
    simp [strayParse, ParseTree.KnowsDamage, ParseNode.isDamaged]
  have hpoints : strayLabel.KnowsPoints strayPoint := by
    unfold KnowsPoints
    decide +kernel
  obtain ⟨hreports, -, hempty⟩ := strayLabel.errors_scan strayPoint hpreorder hknows hpoints
  have hmarked : strayLabel.hasErrors = true := rfl
  refine ⟨hpreorder, hknows, hpoints, hreports, fun hnone => ?_, hmarked⟩
  exact absurd (hmarked.symm.trans (hempty.1 hnone)) nofun

end HclEdit
