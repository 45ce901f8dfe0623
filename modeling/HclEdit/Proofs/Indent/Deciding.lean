import HclEdit.Indent.Column

/-!
# The rule that decides

Which rule decides, and which node it reads an indentation from, hangs on the kinds and links of the
nodes around a line alone. Two sites that agree on these are decided by the same rule, whatever
their lines hold and whichever columns the lines above were given; where that rule reads the same
indentation at both, they get the same column.
-/

namespace HclEdit

def IndentRule.decides (site : IndentSite) (rule : IndentRule) : Bool :=
  rule.matcher.holds site && (rule.anchor.column? site).isSome

namespace IndentRules

def deciding? (rules : IndentRules) (site : IndentSite) : Option IndentRule :=
  rules.find? (·.decides site)

theorem column_eq (rules : IndentRules) (site : IndentSite) :
    rules.column site =
      match rules.deciding? site with
      | some rule => (rule.anchor.column? site).elim 0 (shiftColumn · rule.offset)
      | none => site.parent.elim 0 site.nodeColumn := by
  unfold column deciding?
  induction rules with
  | nil => rfl
  | cons rule rest ih =>
      rw [List.findSome?_cons, List.find?_cons]
      cases hholds : rule.matcher.holds site with
      | false => simpa [IndentRule.column?, IndentRule.decides, hholds] using ih
      | true =>
          cases hcolumn : rule.anchor.column? site with
          | none => simpa [IndentRule.column?, IndentRule.decides, hholds, hcolumn] using ih
          | some column => simp [IndentRule.column?, IndentRule.decides, hholds, hcolumn]

/-- The first line has no line above it whose comment could place it. -/
theorem exists_above_of_comment {rules : IndentRules} {site : IndentSite} {rule : IndentRule}
    (hdeciding : rules.deciding? site = some rule) (hanchor : rule.anchor = .commentAbove) :
    ∃ above, site.line = above + 1 := by
  have hdecides : rule.decides site = true := List.find?_some hdeciding
  rw [IndentRule.decides, Bool.and_eq_true, hanchor, Anchor.column?] at hdecides
  unfold IndentSite.commentColumn? at hdecides
  cases hline : site.line with
  | zero =>
      rw [hline] at hdecides
      exact absurd hdecides.2 nofun
  | succ above => exact ⟨above, rfl⟩

/-- The node whose line the column of a site is read from. -/
def readNode? (rules : IndentRules) (site : IndentSite) : Option NodeId :=
  match (rules.deciding? site).map IndentRule.anchor with
  | some .parentLine => site.parent
  | some .grandParentLine => site.grandParent
  | some _ => none
  | none => site.parent

/-- The columns that are added to what is read. -/
def readOffset (rules : IndentRules) (site : IndentSite) : Int32 :=
  (rules.deciding? site).elim 0 IndentRule.offset

end IndentRules

/-! ### Sites that agree -/

namespace IndentSite

/-- The rules match the same at both sites. -/
structure Agrees (site other : IndentSite) : Prop where
  node_eq : other.node = site.node
  parent_eq : other.parent = site.parent
  line_eq : other.line = site.line
  kind_eq : ∀ id, other.tree.kind id = site.tree.kind id
  parent?_eq : ∀ id, other.tree.parent? id = site.tree.parent? id
  children_eq : ∀ id, other.tree.children id = site.tree.children id

variable {site other : IndentSite} (hagrees : site.Agrees other)
include hagrees

theorem Agrees.grandParent_eq : other.grandParent = site.grandParent := by
  unfold grandParent
  rw [hagrees.parent_eq]
  exact Option.bind_congr fun id _ => hagrees.parent?_eq id

theorem Agrees.firstChild?_eq (id : NodeId) (kind : String) :
    other.tree.firstChild? id kind = site.tree.firstChild? id kind := by
  unfold Tree.firstChild?
  rw [hagrees.children_eq]
  congr 1
  funext child
  rw [hagrees.kind_eq]

end IndentSite

namespace Matcher

variable {site other : IndentSite}

mutual

theorem holds_of_agrees (hagrees : site.Agrees other) :
    ∀ matcher : Matcher, matcher.holds other = matcher.holds site
  | .nodeIs kind => by
      simp only [holds, hagrees.node_eq, hagrees.kind_eq]
  | .parentIs kind => by
      simp only [holds, hagrees.parent_eq, hagrees.kind_eq]
  | .grandParentIs kind => by
      simp only [holds, hagrees.grandParent_eq, hagrees.kind_eq]
  | .firstOfKind kind => by
      simp only [holds, hagrees.node_eq, hagrees.parent_eq, hagrees.kind_eq,
        hagrees.firstChild?_eq]
  | .noParent => by
      simp only [holds, hagrees.parent_eq]
  | .all inner => by
      simp only [holds, holdsAll_of_agrees hagrees inner]
  | .any inner => by
      simp only [holds, holdsAny_of_agrees hagrees inner]
  | .always => rfl

theorem holdsAll_of_agrees (hagrees : site.Agrees other) :
    ∀ inner : List Matcher, holdsAll other inner = holdsAll site inner
  | [] => rfl
  | matcher :: rest => by
      simp only [holdsAll, holds_of_agrees hagrees matcher, holdsAll_of_agrees hagrees rest]

theorem holdsAny_of_agrees (hagrees : site.Agrees other) :
    ∀ inner : List Matcher, holdsAny other inner = holdsAny site inner
  | [] => rfl
  | matcher :: rest => by
      simp only [holdsAny, holds_of_agrees hagrees matcher, holdsAny_of_agrees hagrees rest]

end

end Matcher

namespace IndentSite

variable {site other : IndentSite} (hagrees : site.Agrees other)
include hagrees

theorem Agrees.isSome_column? (anchor : Anchor) :
    (anchor.column? other).isSome = (anchor.column? site).isSome := by
  cases anchor with
  | margin => rfl
  | parentLine => simp [Anchor.column?, hagrees.parent_eq]
  | grandParentLine => simp [Anchor.column?, hagrees.grandParent_eq]
  | commentAbove =>
      unfold Anchor.column? commentColumn?
      rw [hagrees.line_eq]
      cases site.line with
      | zero => rfl
      | succ above => simp only; split <;> split <;> rfl
  | current => rfl

/-- **The same rule decides.** -/
theorem Agrees.deciding?_eq (rules : IndentRules) :
    rules.deciding? other = rules.deciding? site := by
  unfold IndentRules.deciding?
  congr 1
  funext rule
  rw [IndentRule.decides, IndentRule.decides, Matcher.holds_of_agrees hagrees,
    hagrees.isSome_column?]

/-- **The same column**, when the indentation that the deciding rule reads is the same: that of the
line of a node, or what it finds on the line above or on the line itself. -/
theorem Agrees.column_eq (rules : IndentRules)
    (hnode : ∀ id ∈ rules.readNode? site, other.nodeColumn id = site.nodeColumn id)
    (hcomment : ∀ rule, rules.deciding? site = some rule → rule.anchor = .commentAbove →
      other.commentColumn? = site.commentColumn?)
    (hcurrent : ∀ rule, rules.deciding? site = some rule → rule.anchor = .current →
      other.lineColumn other.line = site.lineColumn site.line) :
    rules.column other = rules.column site := by
  rw [rules.column_eq, rules.column_eq, hagrees.deciding?_eq]
  unfold IndentRules.readNode? at hnode
  cases hdeciding : rules.deciding? site with
  | none =>
      rw [hdeciding] at hnode
      dsimp only
      rw [hagrees.parent_eq]
      cases hparent : site.parent with
      | none => rfl
      | some id => exact hnode id hparent
  | some rule =>
      rw [hdeciding] at hnode
      have hcolumn : rule.anchor.column? other = rule.anchor.column? site := by
        cases hanchor : rule.anchor with
        | margin => rfl
        | parentLine =>
            rw [Option.map_some, hanchor] at hnode
            rw [Anchor.column?, Anchor.column?, hagrees.parent_eq]
            exact Option.map_congr hnode
        | grandParentLine =>
            rw [Option.map_some, hanchor] at hnode
            rw [Anchor.column?, Anchor.column?, hagrees.grandParent_eq]
            exact Option.map_congr hnode
        | commentAbove => exact hcomment rule hdeciding hanchor
        | current => exact congrArg some (hcurrent rule hdeciding hanchor)
      exact congrArg (Option.elim · 0 (shiftColumn · rule.offset)) hcolumn

end IndentSite

end HclEdit
