import HclEdit.Indent.Column

/-!
# What the default table decides

The columns that the default table gives to what stands in a body, to a body itself and to a closing
delimiter, by the kinds of the nodes around them.
-/

namespace HclEdit

namespace Matcher

variable {site : IndentSite} {id : NodeId}

theorem holds_nodeIsAny (hnode : site.node = some id) (kinds : List String) :
    (nodeIsAny kinds).holds site = decide (site.tree.kind id ∈ kinds) := by
  unfold nodeIsAny holds
  induction kinds with
  | nil => rfl
  | cons kind rest ih =>
      rw [List.map_cons, holdsAny, ih, holds, hnode]
      by_cases hkind : site.tree.kind id = kind <;> simp [hkind]

theorem not_holds_nodeIsAny (hnode : site.node = none) (kinds : List String) :
    (nodeIsAny kinds).holds site = false := by
  unfold nodeIsAny holds
  induction kinds with
  | nil => rfl
  | cons kind rest ih =>
      rw [List.map_cons, holdsAny, ih, holds, hnode]
      rfl

theorem holds_parentIsAny (hparent : site.parent = some id) (kinds : List String) :
    (parentIsAny kinds).holds site = decide (site.tree.kind id ∈ kinds) := by
  unfold parentIsAny holds
  induction kinds with
  | nil => rfl
  | cons kind rest ih =>
      rw [List.map_cons, holdsAny, ih, holds, hparent]
      by_cases hkind : site.tree.kind id = kind <;> simp [hkind]

end Matcher

namespace IndentRules

/-- The kinds of delimiters that align with the line of the node around them. -/
def delimiters : List String :=
  ["block_end", "object_end", "tuple_end", ")", "block_start"]

/-- One step of indentation, as far as columns go. -/
def step (width : UInt16) : Int32 :=
  Int32.ofNat width.toNat

theorem not_holds_delimiters {site : IndentSite} {node : NodeId} (hnode : site.node = some node)
    (hdelimiter : site.tree.kind node ∉ delimiters) :
    (Matcher.nodeIsAny ["block_end", "object_end", "tuple_end", ")", "block_start"]).holds site =
      false := by
  rw [Matcher.holds_nodeIsAny hnode]
  exact decide_eq_false hdelimiter

section Site

variable {site : IndentSite} {node parent : NodeId} (width : UInt16)
  (hnode : site.node = some node) (hparent : site.parent = some parent)
include hnode hparent

theorem column_delimiter (hdelimiter : site.tree.kind node ∈ delimiters) :
    (hcl width).column site = shiftColumn (site.nodeColumn parent) 0 := by
  have hfirst : (Matcher.nodeIsAny delimiters).holds site = true := by
    rw [Matcher.holds_nodeIsAny hnode, decide_eq_true hdelimiter]
  unfold delimiters at hfirst
  simp [column, hcl, IndentRule.column?, hfirst, Anchor.column?, hparent]

variable (hdelimiter : site.tree.kind node ∉ delimiters)
include hdelimiter

theorem column_of_configFile (hkind : site.tree.kind parent = "config_file") :
    (hcl width).column site = 0 := by
  have hfirst := not_holds_delimiters hnode hdelimiter
  simp [column, hcl, IndentRule.column?, hfirst, Matcher.holds_parentIsAny hparent,
    Matcher.holds, Anchor.column?, hparent, hkind]
  rfl

theorem column_of_block (hkind : site.tree.kind parent = "block") :
    (hcl width).column site = shiftColumn (site.nodeColumn parent) (step width) := by
  have hfirst := not_holds_delimiters hnode hdelimiter
  simp [column, hcl, IndentRule.column?, hfirst, Matcher.holds_parentIsAny hparent,
    Matcher.holds, Matcher.holdsAll, Anchor.column?, hparent, hkind, step]

variable {grandParent : NodeId} (hgrandParent : site.tree.parent? parent = some grandParent)
  (hbody : site.tree.kind parent = "body")
include hgrandParent hbody

theorem column_of_body_of_configFile (hkind : site.tree.kind grandParent = "config_file") :
    (hcl width).column site = 0 := by
  have hfirst := not_holds_delimiters hnode hdelimiter
  simp [column, hcl, IndentRule.column?, hfirst, Matcher.holds_parentIsAny hparent,
    Matcher.holds, Matcher.holdsAll, Anchor.column?, IndentSite.grandParent, hparent,
    hgrandParent, hbody, hkind]
  rfl

theorem column_of_body (hkind : site.tree.kind grandParent ≠ "config_file") :
    (hcl width).column site = shiftColumn (site.nodeColumn grandParent) (step width) := by
  have hfirst := not_holds_delimiters hnode hdelimiter
  simp [column, hcl, IndentRule.column?, hfirst, Matcher.holds_parentIsAny hparent,
    Matcher.holds, Matcher.holdsAll, Anchor.column?, IndentSite.grandParent, hparent,
    hgrandParent, hbody, hkind, step]

end Site

/-! ### Depths as columns -/

/-- The column at a depth, as far as columns are counted. -/
def depthColumn (width : UInt16) (depth : Nat) : Nat :=
  min (width.toNat * depth) (UInt64.size - 1)

theorem depthColumn_eq {width : UInt16} {depth : Nat} (hdepth : depth ≤ UInt32.size + 1) :
    depthColumn width depth = width.toNat * depth := by
  have hwidth : width.toNat ≤ UInt16.size := Nat.le_of_lt width.toNat_lt
  have hproduct : width.toNat * depth ≤ UInt16.size * (UInt32.size + 1) :=
    Nat.mul_le_mul hwidth hdepth
  exact Nat.min_eq_left (Nat.le_trans hproduct (by decide))

theorem toInt_step (width : UInt16) : (step width).toInt = width.toNat := by
  have hlt := width.toNat_lt
  rw [step, Int32.toInt_ofNat_of_lt (by omega)]

theorem shiftColumn_depthColumn_zero (width : UInt16) (depth : Nat) :
    shiftColumn (depthColumn width depth) 0 = depthColumn width depth := by
  unfold shiftColumn depthColumn
  rw [Int32.toInt_zero, Int.add_zero, Int.toNat_natCast, Nat.min_assoc, Nat.min_self]

theorem shiftColumn_depthColumn_step (width : UInt16) (depth : Nat) :
    shiftColumn (depthColumn width depth) (step width) = depthColumn width (depth + 1) := by
  unfold shiftColumn depthColumn
  rw [toInt_step, Nat.mul_add_one]
  omega

end IndentRules

end HclEdit
