import HclEdit.Proofs.Indent.Columns
import HclEdit.Proofs.Indent.Table
import HclEdit.Proofs.Lines.Order
import HclEdit.Proofs.Tree.Search

/-!
# Nesting of blocks as columns

The default table moves a block to a column that depends on nothing but how many blocks hold it,
and what stands in its body one step further in. Four rules share this out between them: the first
item of a body is moved through the body that starts with it, later items through the block around
the body, the top level by two rules of its own, and a closing delimiter by the rule for those. The
columns of inner blocks are counted from the columns that were given to the lines above.
-/

namespace HclEdit

namespace Tree

/-- The first character of a line is that of a node. -/
def Leads (tree : Tree) (id : NodeId) (number : Nat) : Prop :=
  ∃ line, tree.lines.line? number = some line ∧ line.isBlank = false ∧
    line.firstOffset = (tree.span id).start

def HasText (tree : Tree) (id : NodeId) : Prop :=
  (tree.span id).start < (tree.span id).stop

instance (tree : Tree) (id : NodeId) : Decidable (tree.HasText id) :=
  inferInstanceAs (Decidable (_ < _))

theorem Nested.hasText_of_below {tree : Tree} (hnested : tree.Nested) {top id : NodeId}
    (hbelow : tree.Below top id) (htext : tree.HasText id) : tree.HasText top := by
  have hwithin := hnested.within_of_below hbelow
  calc (tree.span top).start
      ≤ (tree.span id).start := hwithin.1
    _ < (tree.span id).stop := htext
    _ ≤ (tree.span top).stop := hwithin.2

/-- A block at the start of a line whose bodies do not start with it. -/
structure StandsAlone (tree : Tree) (block : NodeId) : Prop where
  kind : tree.kind block = "block"
  leads : tree.Leads block (tree.startLine block)
  body : ∀ child ∈ tree.children block, tree.kind child = "body" →
    (tree.span block).start < (tree.span child).start

/-- Blocks that stand alone, at the top level or in a body of such a block. -/
inductive Aligned (tree : Tree) : NodeId → Prop where
  | outermost {block body : NodeId} (halone : tree.StandsAlone block)
      (hparent : tree.parent? block = some body) (hbody : tree.kind body = "body")
      (hroot : tree.parent? body = some root) (hkind : tree.kind root = "config_file") :
      Aligned tree block
  | inner {block body outer : NodeId} (halone : tree.StandsAlone block)
      (hparent : tree.parent? block = some body) (hbody : tree.kind body = "body")
      (houter : tree.parent? body = some outer) (haligned : Aligned tree outer) :
      Aligned tree block

/-- The number of blocks that hold a node. -/
def blockDepth (tree : Tree) (id : NodeId) : Nat :=
  (tree.ancestors id).countP (tree.kind · == "block")

section Depth

variable {tree : Tree} (hlinked : tree.Linked)
include hlinked

theorem Linked.blockDepth_of_body {block body : NodeId} (hparent : tree.parent? block = some body)
    (hbody : tree.kind body = "body") : tree.blockDepth block = tree.blockDepth body := by
  rw [blockDepth, hlinked.ancestors_of_eq_some hparent, List.countP_cons_of_neg (by simp [hbody])]
  rfl

theorem Linked.blockDepth_of_block {body block : NodeId} (hparent : tree.parent? body = some block)
    (hkind : tree.kind block = "block") : tree.blockDepth body = tree.blockDepth block + 1 := by
  rw [blockDepth, hlinked.ancestors_of_eq_some hparent, List.countP_cons_of_pos (by simp [hkind])]
  rfl

theorem Linked.blockDepth_of_root {body : NodeId} (hparent : tree.parent? body = some root)
    (hkind : tree.kind root = "config_file") : tree.blockDepth body = 0 := by
  rw [blockDepth, hlinked.ancestors_of_eq_some hparent, List.countP_cons_of_neg (by simp [hkind]),
    ancestors_of_eq_none hlinked.parent?_root]
  rfl

end Depth

theorem Aligned.standsAlone {tree : Tree} {block : NodeId} (haligned : tree.Aligned block) :
    tree.StandsAlone block := by
  cases haligned with
  | outermost halone => exact halone
  | inner halone => exact halone

end Tree

namespace IndentSite

theorem ofLine_of_outermost {tree : Tree} {assigned : List Nat} {number : Nat} {line : Line}
    {node : NodeId} (hblank : line.isBlank = false)
    (hnode : tree.outermostStartingAt? line.firstOffset = some node) :
    ofLine tree assigned number line = ⟨tree, some node, tree.parent? node, number, assigned⟩ := by
  have hne : line.firstOffset ≠ line.stop := Nat.ne_of_lt (line.firstOffset_lt_stop hblank)
  simp [ofLine, hne, hnode]

end IndentSite

namespace IndentRules

variable {width : UInt16} {tree : Tree}

section Block

variable {block : NodeId} {depth : Nat} (halone : tree.StandsAlone block)
  (hdepth : ((hcl width).columns tree)[tree.startLine block]? = some (depthColumn width depth))
include halone hdepth

/-- A line led by something behind the start of a block sees the block at its column. -/
theorem nodeColumn_block {id : NodeId} {number : Nat} {line : Line} {node parent : Option NodeId}
    (hbehind : (tree.span block).start < (tree.span id).start)
    (hline : tree.lines.line? number = some line)
    (hfirst : line.firstOffset = (tree.span id).start) :
    IndentSite.nodeColumn
      ⟨tree, node, parent, number, ((hcl width).columns tree).take number⟩ block =
        depthColumn width depth := by
  obtain ⟨blockLine, hblockLine, -, hblockFirst⟩ := halone.leads
  have habove : tree.startLine block < number := by
    rw [tree.lines_eq] at hline hblockLine
    refine LineTable.lt_of_firstOffset_lt hblockLine hline ?_
    rw [hblockFirst, hfirst]
    exact hbehind
  exact lineColumn_siteOf (hcl width) tree line habove hdepth

variable (hnested : tree.Nested)
include hnested

/-- What stands in a body of a block goes one step further in than the block. -/
theorem column_item {item body : NodeId} {number : Nat} (hblock : tree.parent? body = some block)
    (hbody : tree.kind body = "body") (hitem : tree.parent? item = some body)
    (hdelimiter : tree.kind item ∉ delimiters) (htext : tree.HasText item)
    (hleads : tree.Leads item number) :
    ((hcl width).columns tree)[number]? = some (depthColumn width (depth + 1)) := by
  obtain ⟨line, hline, hblank, hfirst⟩ := hleads
  have hbehind : (tree.span block).start < (tree.span item).start :=
    Nat.lt_of_lt_of_le (halone.body body (hnested.mem_children_iff.2 hblock) hbody)
      (hnested.within item body hitem).1
  have hcolumn := (hcl width).column_of_line hline hblank
  rw [hcolumn, ← shiftColumn_depthColumn_step]
  have houtermost := hnested.outermostStartingAt?_of_grandParent hitem hblock
    (.inr (Nat.ne_of_lt hbehind)) htext
  rw [← hfirst] at houtermost
  -- The line is asked about the item, or about the body when the item comes first in it.
  rcases houtermost with houtermost | houtermost
  · rw [siteOf, IndentSite.ofLine_of_outermost hblank houtermost, hitem]
    rw [column_of_body width rfl rfl hdelimiter hblock hbody (by simp [halone.kind])]
    rw [nodeColumn_block halone hdepth hbehind hline hfirst]
  · rw [siteOf, IndentSite.ofLine_of_outermost hblank houtermost, hblock]
    rw [column_of_block width rfl rfl (by simp [hbody, delimiters]) halone.kind]
    rw [nodeColumn_block halone hdepth hbehind hline hfirst]

theorem column_block_end {delimiter : NodeId} {number : Nat}
    (hblock : tree.parent? delimiter = some block) (hkind : tree.kind delimiter = "block_end")
    (hbehind : (tree.span block).start < (tree.span delimiter).start)
    (htext : tree.HasText delimiter) (hleads : tree.Leads delimiter number) :
    ((hcl width).columns tree)[number]? = some (depthColumn width depth) := by
  obtain ⟨line, hline, hblank, hfirst⟩ := hleads
  have hcolumn := (hcl width).column_of_line hline hblank
  rw [hcolumn, ← shiftColumn_depthColumn_zero]
  have houtermost := hnested.outermostStartingAt?_of_parent hblock
    (.inr (Nat.ne_of_lt hbehind)) htext
  rw [← hfirst] at houtermost
  rw [siteOf, IndentSite.ofLine_of_outermost hblank houtermost, hblock]
  rw [column_delimiter width rfl rfl (by simp [hkind, delimiters])]
  rw [nodeColumn_block halone hdepth hbehind hline hfirst]

end Block

/-- What stands in a body at the top level starts its line. -/
theorem column_top (hnested : tree.Nested) {item body : NodeId} {number : Nat}
    (hkind : tree.kind Tree.root = "config_file") (hroot : tree.parent? body = some Tree.root)
    (hbody : tree.kind body = "body")
    (hitem : tree.parent? item = some body) (hdelimiter : tree.kind item ∉ delimiters)
    (htext : tree.HasText item) (hleads : tree.Leads item number) :
    ((hcl width).columns tree)[number]? = some 0 := by
  obtain ⟨line, hline, hblank, hfirst⟩ := hleads
  have hcolumn := (hcl width).column_of_line hline hblank
  rw [hcolumn]
  have houtermost := hnested.outermostStartingAt?_of_grandParent hitem hroot (.inl rfl) htext
  rw [← hfirst] at houtermost
  rcases houtermost with houtermost | houtermost
  · rw [siteOf, IndentSite.ofLine_of_outermost hblank houtermost, hitem]
    rw [column_of_body_of_configFile width rfl rfl hdelimiter hroot hbody hkind]
  · rw [siteOf, IndentSite.ofLine_of_outermost hblank houtermost, hroot]
    rw [column_of_configFile width rfl rfl (by simp [hbody, delimiters]) hkind]

theorem column_aligned (hnested : tree.Nested) {block : NodeId} (haligned : tree.Aligned block)
    (htext : tree.HasText block) :
    ((hcl width).columns tree)[tree.startLine block]? =
      some (depthColumn width (tree.blockDepth block)) := by
  induction haligned with
  | @outermost block body halone hparent hbody hroot hkind =>
      rw [hnested.blockDepth_of_body hparent hbody, hnested.blockDepth_of_root hroot hkind]
      exact column_top hnested hkind hroot hbody hparent (by simp [halone.kind, delimiters]) htext
        halone.leads
  | @inner block body outer halone hparent hbody houter haligned ih =>
      have houterText := hnested.hasText_of_below (.child hparent (.child houter .self)) htext
      have houterAlone := haligned.standsAlone
      rw [hnested.blockDepth_of_body hparent hbody,
        hnested.blockDepth_of_block houter houterAlone.kind]
      exact column_item houterAlone (ih houterText) hnested houter hbody hparent
        (by simp [halone.kind, delimiters]) htext halone.leads

/-- **Blocks nest as columns.** In a built tree the default table moves the line of every aligned
block that is not empty to the column of the depth of the block. Lines led by what stands in its
bodies go one step further in, lines led by its closing delimiter align with it, and lines led by
what stands at the top level get no indentation. -/
theorem columns_by_depth (width : UInt16) {source : Text} {calls : List Draft.Call} {tree : Tree}
    (hbuild : Tree.build source calls = .ok tree) :
    (∀ block, tree.Aligned block → tree.HasText block →
      ((hcl width).columns tree)[tree.startLine block]? =
        some (depthColumn width (tree.blockDepth block))) ∧
    (∀ block body item number, tree.Aligned block → tree.parent? body = some block →
      tree.kind body = "body" → tree.parent? item = some body → tree.kind item ∉ delimiters →
      tree.HasText item → tree.Leads item number →
      ((hcl width).columns tree)[number]? =
        some (depthColumn width (tree.blockDepth block + 1))) ∧
    (∀ block delimiter number, tree.Aligned block → tree.parent? delimiter = some block →
      tree.kind delimiter = "block_end" →
      (tree.span block).start < (tree.span delimiter).start →
      tree.HasText delimiter → tree.Leads delimiter number →
      ((hcl width).columns tree)[number]? =
        some (depthColumn width (tree.blockDepth block))) ∧
    (∀ body item number, tree.kind Tree.root = "config_file" →
      tree.parent? body = some Tree.root → tree.kind body = "body" →
      tree.parent? item = some body → tree.kind item ∉ delimiters →
      tree.HasText item → tree.Leads item number →
      ((hcl width).columns tree)[number]? = some 0) ∧
    (tree.size ≤ UInt32.size → ∀ block,
      depthColumn width (tree.blockDepth block) = width.toNat * tree.blockDepth block ∧
      depthColumn width (tree.blockDepth block + 1) =
        width.toNat * (tree.blockDepth block + 1)) := by
  have hnested := Tree.nested_build hbuild
  refine ⟨?aligned, ?items, ?delimiters, ?top, ?exact⟩
  case aligned => exact fun block haligned htext => column_aligned hnested haligned htext
  case items =>
    intro block body item number haligned hblock hbody hitem hdelimiter htext hleads
    have hblockText := hnested.hasText_of_below (.child hitem (.child hblock .self)) htext
    exact column_item haligned.standsAlone (column_aligned hnested haligned hblockText) hnested
      hblock hbody hitem hdelimiter htext hleads
  case delimiters =>
    intro block delimiter number haligned hblock hkind hbehind htext hleads
    have hblockText := hnested.hasText_of_below (.child hblock .self) htext
    exact column_block_end haligned.standsAlone (column_aligned hnested haligned hblockText)
      hnested hblock hkind hbehind htext hleads
  case top =>
    intro body item number hkind hroot hbody hitem hdelimiter htext hleads
    exact column_top hnested hkind hroot hbody hitem hdelimiter htext hleads
  case exact =>
    intro hsize block
    have hdepth : tree.blockDepth block ≤ UInt32.size :=
      calc tree.blockDepth block
          ≤ (tree.ancestors block).length := List.countP_le_length
        _ ≤ tree.size := Tree.length_ancestorsUpTo_le tree.size block
        _ ≤ UInt32.size := hsize
    exact ⟨depthColumn_eq (Nat.le_succ_of_le hdepth), depthColumn_eq (Nat.succ_le_succ hdepth)⟩

/-! ### Two blocks, and an empty one -/

def twoBlocksSource : Text :=
  ['a', ' ', '{', '\n', 'b', ' ', '{', '\n', 'x', '\n', '}', '\n', '}']

def twoBlocksCalls : List Draft.Call :=
  [.opening "config_file" ⟨0, 13⟩, .opening "body" ⟨0, 13⟩, .opening "block" ⟨0, 13⟩,
    .leaf "block_start" ⟨2, 3⟩, .opening "body" ⟨4, 11⟩, .opening "block" ⟨4, 11⟩,
    .leaf "block_start" ⟨6, 7⟩, .opening "body" ⟨8, 9⟩, .leaf "attribute" ⟨8, 9⟩, .closing,
    .leaf "block_end" ⟨10, 11⟩, .closing, .closing, .leaf "block_end" ⟨12, 13⟩,
    .closing, .closing, .closing]

def twoBlocks : Tree :=
  (twoBlocksCalls.foldl Draft.call (.new twoBlocksSource)).tree

theorem aligned_twoBlocks : twoBlocks.Aligned 2 ∧ twoBlocks.Aligned 5 := by
  have houter : twoBlocks.Aligned 2 :=
    .outermost ⟨rfl, ⟨⟨0, ['a', ' ', '{'], .newline⟩, rfl, rfl, rfl⟩, by decide⟩
      (rfl : twoBlocks.parent? 2 = some 1) rfl rfl rfl
  have hinner : twoBlocks.Aligned 5 :=
    .inner ⟨rfl, ⟨⟨4, ['b', ' ', '{'], .newline⟩, rfl, rfl, rfl⟩, by decide⟩
      (rfl : twoBlocks.parent? 5 = some 4) rfl rfl houter
  exact ⟨houter, hinner⟩

theorem columns_twoBlocks :
    Tree.build twoBlocksSource twoBlocksCalls = .ok twoBlocks ∧
      ((hcl 2).columns twoBlocks)[0]? = some 0 ∧ ((hcl 2).columns twoBlocks)[1]? = some 2 ∧
      ((hcl 2).columns twoBlocks)[2]? = some 4 ∧ ((hcl 2).columns twoBlocks)[3]? = some 2 := by
  have hbuild : Tree.build twoBlocksSource twoBlocksCalls = .ok twoBlocks := rfl
  obtain ⟨houter, hinner⟩ := aligned_twoBlocks
  obtain ⟨haligned, hitems, hdelimiters, htop, -⟩ := columns_by_depth 2 hbuild
  refine ⟨hbuild, ?_, ?_, ?_, ?_⟩
  · exact htop 1 2 0 rfl rfl rfl rfl (by decide) (by decide) houter.standsAlone.leads
  · exact haligned 5 hinner (by decide)
  · exact hitems 5 7 8 2 hinner rfl rfl rfl (by decide) (by decide)
      ⟨⟨8, ['x'], .newline⟩, rfl, rfl, rfl⟩
  · exact hdelimiters 5 9 3 hinner rfl rfl (by decide) (by decide)
      ⟨⟨10, ['}'], .newline⟩, rfl, rfl, rfl⟩

/-- An empty block covers nothing, so what the line really starts with decides. -/
theorem column_of_empty_block :
    ∃ tree, Tree.build ['a', '\n', '{']
        [.opening "config_file" ⟨0, 3⟩, .opening "body" ⟨0, 3⟩, .opening "block" ⟨0, 3⟩,
          .leaf "identifier" ⟨0, 1⟩, .opening "body" ⟨2, 2⟩, .leaf "block" ⟨2, 2⟩, .closing,
          .leaf "block_start" ⟨2, 3⟩, .closing, .closing, .closing] = .ok tree ∧
      tree.Aligned 5 ∧ tree.blockDepth 5 = 1 ∧
      ((hcl 2).columns tree)[tree.startLine 5]? ≠ some (2 * tree.blockDepth 5) := by
  refine ⟨_, rfl, ?_, by decide, by decide⟩
  refine .inner ⟨rfl, ⟨⟨2, ['{'], .none⟩, rfl, rfl, rfl⟩, by decide⟩ rfl rfl rfl ?_
  exact .outermost ⟨rfl, ⟨⟨0, ['a'], .newline⟩, rfl, rfl, rfl⟩, by decide⟩ rfl rfl rfl rfl

end IndentRules

end HclEdit
