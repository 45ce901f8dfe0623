import HclEdit.Indent.Reindent
import HclEdit.Proofs.Indent.WellIndented
import Mathlib.Logic.Relation

/-!
# Tables that decide alike

One table can be written in several ways. The first rule that matches and has a column decides, so a
rule that matches is still passed over where its anchor has no column. The rewritings below respect
that: none of them changes the column of any line or node, whatever is around it, and so none
changes a pass over a whole source.
-/

namespace HclEdit

namespace Matcher

theorem holdsAll_eq_all (site : IndentSite) (inner : List Matcher) :
    holdsAll site inner = inner.all (·.holds site) := by
  induction inner with
  | nil => rfl
  | cons matcher rest ih => rw [holdsAll, ih, List.all_cons]

theorem holdsAny_eq_any (site : IndentSite) (inner : List Matcher) :
    holdsAny site inner = inner.any (·.holds site) := by
  induction inner with
  | nil => rfl
  | cons matcher rest ih => rw [holdsAny, ih, List.any_cons]

/-- One rewriting within a matcher, however deep. -/
inductive Rewrites : Matcher → Matcher → Prop
  | allOfNone : Rewrites (.all []) .always
  | allInAll (front inner back : List Matcher) :
      Rewrites (.all (front ++ .all inner :: back)) (.all (front ++ inner ++ back))
  | anyInAny (front inner back : List Matcher) :
      Rewrites (.any (front ++ .any inner :: back)) (.any (front ++ inner ++ back))
  | withinAll (front back : List Matcher) {matcher other : Matcher}
      (hrewrites : Rewrites matcher other) :
      Rewrites (.all (front ++ matcher :: back)) (.all (front ++ other :: back))
  | withinAny (front back : List Matcher) {matcher other : Matcher}
      (hrewrites : Rewrites matcher other) :
      Rewrites (.any (front ++ matcher :: back)) (.any (front ++ other :: back))

theorem Rewrites.holds_eq {matcher other : Matcher} (hrewrites : Rewrites matcher other)
    (site : IndentSite) : other.holds site = matcher.holds site := by
  induction hrewrites with
  | allOfNone => rfl
  | allInAll front inner back => simp [holds, holdsAll_eq_all]
  | anyInAny front inner back => simp [holds, holdsAny_eq_any]
  | withinAll front back _ ih => simp [holds, holdsAll_eq_all, ih]
  | withinAny front back _ ih => simp [holds, holdsAny_eq_any, ih]

end Matcher

namespace IndentRule

variable {rule : IndentRule} {site : IndentSite}

theorem column?_of_holds (hholds : rule.matcher.holds site = true) :
    rule.column? site = (rule.anchor.column? site).map (shiftColumn · rule.offset) :=
  if_pos hholds

theorem column?_of_not_holds (hholds : ¬ rule.matcher.holds site = true) :
    rule.column? site = none :=
  if_neg hholds

theorem column?_of_anchor (hanchor : rule.anchor.column? site = none) :
    rule.column? site = none := by
  rw [column?, hanchor]
  exact ite_self none

theorem column?_congr {matcher other : Matcher} {anchor : Anchor} {offset : Int32}
    (hholds : other.holds site = matcher.holds site) :
    column? ⟨other, anchor, offset⟩ site = column? ⟨matcher, anchor, offset⟩ site := by
  unfold column?
  simp only [hholds]

/-- A rule for any of some matchers is passed over where its anchor has no column, like a rule for
one of them. -/
theorem column?_any_cons (matcher : Matcher) (rest : List Matcher) (anchor : Anchor)
    (offset : Int32) :
    column? ⟨.any (matcher :: rest), anchor, offset⟩ site =
      (column? ⟨matcher, anchor, offset⟩ site).or (column? ⟨.any rest, anchor, offset⟩ site) := by
  by_cases hmatcher : matcher.holds site = true
  · have hany : (Matcher.any (matcher :: rest)).holds site = true := by
      rw [Matcher.holds, Matcher.holdsAny, hmatcher, Bool.true_or]
    rw [column?_of_holds hany, column?_of_holds hmatcher]
    cases hanchor : anchor.column? site with
    | none => exact (column?_of_anchor hanchor).symm
    | some column => rfl
  · have hany : (Matcher.any (matcher :: rest)).holds site = (Matcher.any rest).holds site := by
      rw [Matcher.holds, Matcher.holdsAny, Bool.eq_false_iff.2 hmatcher, Bool.false_or,
        Matcher.holds]
    have hnone : column? ⟨matcher, anchor, offset⟩ site = none := column?_of_not_holds hmatcher
    rw [hnone, Option.none_or]
    exact column?_congr hany

theorem isSome_column?_of_always (halways : ∀ site, rule.matcher.holds site = true)
    (hanchor : rule.anchor = .margin ∨ rule.anchor = .current) :
    (rule.column? site).isSome = true := by
  rw [column?_of_holds (halways site), Option.isSome_map]
  rcases hanchor with hanchor | hanchor <;> rw [hanchor] <;> rfl

end IndentRule

namespace IndentRules

/-- One rewriting anywhere in a table. -/
inductive Rewrites : IndentRules → IndentRules → Prop
  | split (front back : IndentRules) (matchers : List Matcher) (anchor : Anchor) (offset : Int32) :
      Rewrites (front ++ ⟨.any matchers, anchor, offset⟩ :: back)
        (front ++ matchers.map (⟨·, anchor, offset⟩) ++ back)
  | withinRule (front back : IndentRules) {matcher other : Matcher} (anchor : Anchor)
      (offset : Int32) (hrewrites : matcher.Rewrites other) :
      Rewrites (front ++ ⟨matcher, anchor, offset⟩ :: back)
        (front ++ ⟨other, anchor, offset⟩ :: back)
  | repeated (front middle back : IndentRules) (rule : IndentRule) :
      Rewrites (front ++ rule :: middle ++ rule :: back) (front ++ rule :: middle ++ back)
  | unreached (front back : IndentRules) (rule : IndentRule)
      (halways : ∀ site, rule.matcher.holds site = true)
      (hanchor : rule.anchor = .margin ∨ rule.anchor = .current) :
      Rewrites (front ++ rule :: back) (front ++ [rule])

variable {rules other : IndentRules} {site : IndentSite}

def columnOfRules? (rules : IndentRules) (site : IndentSite) : Option Nat :=
  rules.findSome? (·.column? site)

theorem columnOfRules?_append (front back : IndentRules) (site : IndentSite) :
    columnOfRules? (front ++ back) site =
      (columnOfRules? front site).or (columnOfRules? back site) :=
  List.findSome?_append

theorem columnOfRules?_cons (rule : IndentRule) (rest : IndentRules) (site : IndentSite) :
    columnOfRules? (rule :: rest) site = (rule.column? site).or (columnOfRules? rest site) := by
  rw [columnOfRules?, List.findSome?_cons]
  cases rule.column? site <;> rfl

theorem columnOfRules?_map (matchers : List Matcher) (anchor : Anchor) (offset : Int32)
    (site : IndentSite) :
    columnOfRules? (matchers.map (⟨·, anchor, offset⟩)) site =
      IndentRule.column? ⟨.any matchers, anchor, offset⟩ site := by
  induction matchers with
  | nil => rfl
  | cons matcher rest ih =>
      rw [List.map_cons, columnOfRules?_cons, ih, IndentRule.column?_any_cons]

theorem Rewrites.columnOfRules?_eq (hrewrites : Rewrites rules other) (site : IndentSite) :
    columnOfRules? other site = columnOfRules? rules site := by
  cases hrewrites with
  | split front back matchers anchor offset =>
      rw [columnOfRules?_append, columnOfRules?_append, columnOfRules?_append,
        columnOfRules?_cons, columnOfRules?_map, Option.or_assoc]
  | withinRule front back anchor offset hmatcher =>
      rw [columnOfRules?_append, columnOfRules?_append, columnOfRules?_cons, columnOfRules?_cons,
        IndentRule.column?_congr (hmatcher.holds_eq site)]
  | repeated front middle back rule =>
      simp only [columnOfRules?_append, columnOfRules?_cons]
      cases rule.column? site <;> simp
  | unreached front back rule halways hanchor =>
      have hdecides : (rule.column? site).isSome = true :=
        IndentRule.isSome_column?_of_always halways hanchor
      simp [columnOfRules?_append, columnOfRules?_cons, Option.or_of_isSome hdecides]

/-- **Every line and node keeps its column**, whatever is around it. -/
theorem column_eq_of_rewrites (hrewrites : Relation.EqvGen Rewrites rules other)
    (site : IndentSite) : other.column site = rules.column site := by
  induction hrewrites with
  | rel rules other hrewrites =>
      have hdecided := hrewrites.columnOfRules?_eq site
      unfold columnOfRules? at hdecided
      rw [column, column, hdecided]
  | refl rules => rfl
  | symm rules other _ ih => exact ih.symm
  | trans rules middle other _ _ hfirst hsecond => exact hsecond.trans hfirst

theorem columns_eq_of_rewrites (hrewrites : Relation.EqvGen Rewrites rules other) (tree : Tree) :
    other.columns tree = rules.columns tree := by
  have hnext : other.nextColumn tree = rules.nextColumn tree := by
    funext assigned line
    rw [nextColumn, nextColumn, column_eq_of_rewrites hrewrites]
  rw [columns, columns, hnext]

/-- **Rewriting a table does not change what it does.** Tables that any number of rewritings lead to
from one another give the same column to every node and to every line, and re-indent every source
alike. -/
theorem rewritten_rules_agree (hrewrites : Relation.EqvGen Rewrites rules other) (tree : Tree) :
    (∀ id, other.columnOfNode tree id = rules.columnOfNode tree id) ∧
      (∀ number, other.columnOfLine tree number = rules.columnOfLine tree number) ∧
      other.columns tree = rules.columns tree ∧
      other.reindent tree = rules.reindent tree := by
  refine ⟨?node, ?line, ?columns, ?source⟩
  case node => exact fun id => column_eq_of_rewrites hrewrites _
  case line =>
    intro number
    unfold columnOfLine
    congr 1
    funext line
    exact column_eq_of_rewrites hrewrites _
  case columns => exact columns_eq_of_rewrites hrewrites tree
  case source => rw [reindent, reindent, columns_eq_of_rewrites hrewrites tree]

/-- A table that says the same things more than once, and says things that never come to bear. -/
def wordyRules : IndentRules :=
  [ ⟨.any [.nodeIs "block_end", .any [.nodeIs "\x7d"]], .parentLine, 0⟩,
    ⟨.parentIs "body", .grandParentLine, 2⟩,
    ⟨.nodeIs "block_end", .parentLine, 0⟩,
    ⟨.all [], .current, 0⟩,
    ⟨.noParent, .margin, 0⟩ ]

def conciseRules : IndentRules :=
  [ ⟨.nodeIs "block_end", .parentLine, 0⟩,
    ⟨.nodeIs "\x7d", .parentLine, 0⟩,
    ⟨.parentIs "body", .grandParentLine, 2⟩,
    ⟨.always, .current, 0⟩ ]

theorem rewrites_wordyRules : Relation.EqvGen Rewrites wordyRules conciseRules := by
  have hflat := Rewrites.withinRule [] wordyRules.tail .parentLine 0
    (.anyInAny [.nodeIs "block_end"] [.nodeIs "\x7d"] [])
  have hsplit :=
    Rewrites.split [] wordyRules.tail [.nodeIs "block_end", .nodeIs "\x7d"] .parentLine 0
  have hrepeated := Rewrites.repeated [] (conciseRules.drop 1 |>.take 2) (wordyRules.drop 3)
    ⟨.nodeIs "block_end", .parentLine, 0⟩
  have halways :=
    Rewrites.withinRule (conciseRules.take 3) (wordyRules.drop 4) .current 0 .allOfNone
  have hunreached := Rewrites.unreached (conciseRules.take 3) (wordyRules.drop 4)
    ⟨.always, .current, 0⟩ (fun _ => rfl) (.inr rfl)
  exact .trans _ _ _ (.rel _ _ hflat) (.trans _ _ _ (.rel _ _ hsplit)
    (.trans _ _ _ (.rel _ _ hrepeated) (.trans _ _ _ (.rel _ _ halways) (.rel _ _ hunreached))))

theorem rewritten_rules_agree_wordyRules :
    Relation.EqvGen Rewrites wordyRules conciseRules ∧
      conciseRules.columns tabbedBlock = wordyRules.columns tabbedBlock ∧
      wordyRules.columns tabbedBlock = [0, 2, 0, 0] :=
  ⟨rewrites_wordyRules, (rewritten_rules_agree rewrites_wordyRules tabbedBlock).2.2.1, by decide⟩

/-- Where an anchor may have no column, a rule that always matches does not hide the rules after
it. -/
example : columnOfNode [⟨.always, .parentLine, 0⟩, ⟨.always, .margin, 4⟩] tabbedBlock Tree.root ≠
    columnOfNode [⟨.always, .parentLine, 0⟩] tabbedBlock Tree.root := by decide

end IndentRules

end HclEdit
