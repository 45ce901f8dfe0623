import HclEdit.Indent.RuleJson
import HclEdit.Proofs.Json.Members
import Mathlib.Data.List.Forall2

/-!
# Rule tables and their JSON values

A rule table can be spelled as a JSON value in many ways: the members of an object stand in any
order, others may stand among them, and an offset of zero may be left out. However it is spelled, it
is read as that table, and the value that it is written as is one of the spellings.
-/

namespace HclEdit

namespace Matcher

/-! ### Spellings -/

/-- An object that gives a kind of match and what to compare with, among whatever else. -/
inductive Names (tag : String) (operand : List Json) : Json → Prop where
  | object {members : List (String × Json)}
      (htag : Json.valuesOf "match" members = [.string tag])
      (hoperand : Json.valuesOf "kind" members = operand) : Names tag operand (.object members)

mutual

def SpelledBy : Matcher → Json → Prop
  | .nodeIs kind, json => Names "node_is" [.string kind] json
  | .parentIs kind, json => Names "parent_is" [.string kind] json
  | .grandParentIs kind, json => Names "grand_parent_is" [.string kind] json
  | .firstOfKind kind, json => Names "first_of_kind_in_parent" [.string kind] json
  | .noParent, json => Names "no_parent" [] json
  | .all inner, json => ∃ items, Names "all" [.array items] json ∧ AllSpelledBy inner items
  | .any inner, json => ∃ items, Names "any" [.array items] json ∧ AllSpelledBy inner items
  | .always, json => Names "always" [] json

def AllSpelledBy : List Matcher → List Json → Prop
  | [], items => items = []
  | matcher :: rest, items =>
      ∃ item others, items = item :: others ∧ matcher.SpelledBy item ∧ AllSpelledBy rest others

end

/-- Each value under `kind` is read as an operand, though what is read before and after the kind of
match may be read in different ways. -/
theorem operands_forall₂ (setAside tagged : Bool) (members : List (String × Json)) :
    List.Forall₂ (fun operand value => ∃ aside, operand = readOperand aside value)
      (operands setAside tagged members) (Json.valuesOf "kind" members) := by
  induction members generalizing tagged with
  | nil =>
      rw [operands]
      exact .nil
  | cons member rest ih =>
      obtain ⟨key, value⟩ := member
      rw [Json.valuesOf_cons, operands]
      split
      · exact .cons ⟨_, rfl⟩ (ih tagged)
      · exact ih _

theorem operands_of_nil {members : List (String × Json)}
    (hkind : Json.valuesOf "kind" members = []) (setAside tagged : Bool) :
    operands setAside tagged members = [] := by
  have hoperands := operands_forall₂ setAside tagged members
  rw [hkind] at hoperands
  exact List.forall₂_nil_right_iff.1 hoperands

theorem operands_of_singleton {members : List (String × Json)} {value : Json}
    (hkind : Json.valuesOf "kind" members = [value]) (setAside tagged : Bool) :
    ∃ aside, operands setAside tagged members = [readOperand aside value] := by
  have hoperands := operands_forall₂ setAside tagged members
  rw [hkind] at hoperands
  obtain ⟨operand, others, ⟨aside, rfl⟩, hothers, hoperands⟩ :=
    List.forall₂_cons_right_iff.1 hoperands
  rw [List.forall₂_nil_right_iff] at hothers
  exact ⟨aside, by rw [hoperands, hothers]⟩

theorem Names.ofJson?_absent {tag : String} {json : Json} (hnames : Names tag [] json)
    (setAside : Bool) : ofJson? setAside json = ofOperand? tag .absent := by
  obtain ⟨htag, hkind⟩ := hnames
  rw [ofJson?, Json.field?_of_singleton htag, operands_of_nil hkind]
  rfl

theorem Names.ofJson?_operand {tag : String} {operand json : Json}
    (hnames : Names tag [operand] json) (setAside : Bool) :
    ∃ aside, ofJson? setAside json = ofOperand? tag (readOperand aside operand) := by
  obtain ⟨htag, hkind⟩ := hnames
  obtain ⟨aside, hoperands⟩ := operands_of_singleton hkind setAside false
  refine ⟨aside, ?_⟩
  rw [ofJson?, Json.field?_of_singleton htag, hoperands]
  rfl

theorem Names.ofJson?_kind {tag kind : String} {json : Json}
    (hnames : Names tag [.string kind] json) (setAside : Bool) :
    ofJson? setAside json = ofOperand? tag (.kind kind) := by
  obtain ⟨aside, hread⟩ := hnames.ofJson?_operand setAside
  rw [hread, readOperand]

theorem Names.ofJson?_inner {tag : String} {items : List Json} {json : Json}
    (hnames : Names tag [.array items] json) {inner : List Matcher}
    (hinner : ∀ setAside, listOfJson? setAside items = some inner) (setAside : Bool) :
    ofJson? setAside json = ofOperand? tag (.inner inner) := by
  obtain ⟨aside, hread⟩ := hnames.ofJson?_operand setAside
  rw [hread, readOperand, hinner]
  rfl

mutual

theorem ofJson?_of_spelledBy : ∀ (matcher : Matcher) {json : Json}, matcher.SpelledBy json →
    ∀ setAside, ofJson? setAside json = some matcher
  | .nodeIs _, _, hspelled, setAside | .parentIs _, _, hspelled, setAside
  | .grandParentIs _, _, hspelled, setAside | .firstOfKind _, _, hspelled, setAside => by
      rw [SpelledBy] at hspelled
      exact hspelled.ofJson?_kind setAside
  | .noParent, _, hspelled, setAside | .always, _, hspelled, setAside => by
      rw [SpelledBy] at hspelled
      exact hspelled.ofJson?_absent setAside
  | .all inner, _, hspelled, setAside | .any inner, _, hspelled, setAside => by
      rw [SpelledBy] at hspelled
      obtain ⟨items, hnames, hinner⟩ := hspelled
      exact hnames.ofJson?_inner (listOfJson?_of_allSpelledBy inner hinner) setAside

theorem listOfJson?_of_allSpelledBy : ∀ (matchers : List Matcher) {items : List Json},
    AllSpelledBy matchers items → ∀ setAside, listOfJson? setAside items = some matchers
  | [], items, hspelled, setAside => by
      rw [AllSpelledBy] at hspelled
      rw [hspelled, listOfJson?]
  | matcher :: rest, items, hspelled, setAside => by
      rw [AllSpelledBy] at hspelled
      obtain ⟨item, others, rfl, hitem, hothers⟩ := hspelled
      rw [listOfJson?, ofJson?_of_spelledBy matcher hitem setAside,
        listOfJson?_of_allSpelledBy rest hothers setAside]
      rfl

end

mutual

theorem spelledBy_toJson : ∀ matcher : Matcher, matcher.SpelledBy matcher.toJson
  | .nodeIs _ | .parentIs _ | .grandParentIs _ | .firstOfKind _ | .noParent | .always => by
      rw [SpelledBy, toJson]
      exact .object rfl rfl
  | .all inner | .any inner => by
      rw [SpelledBy, toJson]
      exact ⟨_, .object rfl rfl, allSpelledBy_listToJson inner⟩

theorem allSpelledBy_listToJson : ∀ matchers : List Matcher,
    AllSpelledBy matchers (listToJson matchers)
  | [] => by rw [AllSpelledBy, listToJson]
  | matcher :: rest => by
      rw [AllSpelledBy, listToJson]
      exact ⟨_, _, rfl, spelledBy_toJson matcher, allSpelledBy_listToJson rest⟩

end

end Matcher

/-! ### Rules -/

theorem Anchor.ofJson?_name (anchor : Anchor) :
    Anchor.ofJson? (.string anchor.name) = some anchor := by
  cases anchor <;> rfl

namespace IndentRule

inductive SpelledBy (rule : IndentRule) : Json → Prop where
  | object {members : List (String × Json)} {matcher : Json}
      (hmatcher : Json.valuesOf "matcher" members = [matcher])
      (hspelled : rule.matcher.SpelledBy matcher)
      (hanchor : Json.valuesOf "anchor" members = [.string rule.anchor.name])
      (hoffset : Json.valuesOf "offset" members = [.integer rule.offset.toInt] ∨
        Json.valuesOf "offset" members = [] ∧ rule.offset = 0) :
      SpelledBy rule (.object members)

/-- A value that gives no offset. -/
inductive OmitsOffset : Json → Prop where
  | object {members : List (String × Json)} (hoffset : Json.valuesOf "offset" members = []) :
      OmitsOffset (.object members)
  | array (matcher anchor : Json) : OmitsOffset (.array [matcher, anchor])

theorem offsetOfJson?_toInt (offset : Int32) :
    offsetOfJson? (.integer offset.toInt) = some offset := by
  have hlow : Int32.minValue.toInt ≤ offset.toInt := offset.minValue_le_toInt
  have hhigh : offset.toInt ≤ Int32.maxValue.toInt := offset.toInt_le
  rw [offsetOfJson?, if_pos ⟨hlow, hhigh⟩, Int32.ofInt_toInt]

theorem ofFields?_eq_some_iff {matcher anchor : Json} {offset : Option Json} {rule : IndentRule} :
    ofFields? matcher anchor offset = some rule ↔
      Matcher.ofJson? false matcher = some rule.matcher ∧
        Anchor.ofJson? anchor = some rule.anchor ∧
          Json.decodeField? offsetOfJson? 0 offset = some rule.offset := by
  obtain ⟨ruleMatcher, ruleAnchor, ruleOffset⟩ := rule
  simp [ofFields?, Option.bind_eq_some_iff]

theorem SpelledBy.ofJson? {rule : IndentRule} {json : Json} (hspelled : rule.SpelledBy json) :
    IndentRule.ofJson? json = some rule := by
  obtain ⟨hmatcher, hspelled, hanchor, hoffset⟩ := hspelled
  have hread := Matcher.ofJson?_of_spelledBy rule.matcher hspelled false
  rw [IndentRule.ofJson?, Json.field?_of_singleton hmatcher, Json.field?_of_singleton hanchor]
  rcases hoffset with hoffset | ⟨hoffset, hzero⟩
  · rw [Json.field?_of_singleton hoffset]
    exact ofFields?_eq_some_iff.2 ⟨hread, rule.anchor.ofJson?_name, offsetOfJson?_toInt rule.offset⟩
  · rw [Json.field?_of_nil hoffset]
    exact ofFields?_eq_some_iff.2
      ⟨hread, rule.anchor.ofJson?_name, congrArg some hzero.symm⟩

theorem spelledBy_toJson (rule : IndentRule) : rule.SpelledBy rule.toJson :=
  .object rfl rule.matcher.spelledBy_toJson rfl (.inl rfl)

theorem OmitsOffset.offset_eq {json : Json} (homits : OmitsOffset json) {rule : IndentRule}
    (hread : IndentRule.ofJson? json = some rule) : rule.offset = 0 := by
  have hnone : ∀ {matcher anchor}, ofFields? matcher anchor none = some rule →
      rule.offset = 0 := by
    intro matcher anchor hfields
    obtain ⟨-, -, hoffset⟩ := ofFields?_eq_some_iff.1 hfields
    exact (Option.some.inj hoffset).symm
  cases homits with
  | object hoffset =>
      rw [IndentRule.ofJson?, Json.field?_of_nil hoffset] at hread
      obtain ⟨matcher?, -, hread⟩ := Option.bind_eq_some_iff.1 hread
      obtain ⟨anchor?, -, hread⟩ := Option.bind_eq_some_iff.1 hread
      rw [Option.bind_eq_bind, Option.bind_some] at hread
      obtain ⟨matcher, -, hread⟩ := Option.bind_eq_some_iff.1 hread
      obtain ⟨anchor, -, hread⟩ := Option.bind_eq_some_iff.1 hread
      exact hnone hread
  | array matcher anchor => exact hnone hread

end IndentRule

/-! ### Tables -/

namespace IndentRules

def SpelledBy (rules : IndentRules) (json : Json) : Prop :=
  ∃ items, json = .array items ∧ List.Forall₂ IndentRule.SpelledBy rules items

theorem mapM_eq_some_iff {items : List Json} {rules : IndentRules} :
    items.mapM IndentRule.ofJson? = some rules ↔
      List.Forall₂ (fun rule item => IndentRule.ofJson? item = some rule) rules items := by
  induction items generalizing rules with
  | nil =>
      rw [List.forall₂_nil_right_iff]
      exact ⟨fun hread => (Option.some.inj hread).symm, fun hrules => congrArg some hrules.symm⟩
  | cons item items ih =>
      rw [List.mapM_cons, List.forall₂_cons_right_iff]
      constructor
      · intro hread
        obtain ⟨rule, hrule, hread⟩ := Option.bind_eq_some_iff.1 hread
        obtain ⟨others, hothers, hread⟩ := Option.bind_eq_some_iff.1 hread
        exact ⟨rule, others, hrule, ih.1 hothers, (Option.some.inj hread).symm⟩
      · rintro ⟨rule, others, hrule, hothers, rfl⟩
        rw [hrule, ih.2 hothers]
        rfl

theorem SpelledBy.ofJson? {rules : IndentRules} {json : Json} (hspelled : SpelledBy rules json) :
    IndentRules.ofJson? json = some rules := by
  obtain ⟨items, rfl, hspelled⟩ := hspelled
  exact mapM_eq_some_iff.2 (hspelled.imp fun rule item hitem => hitem.ofJson?)

theorem spelledBy_toJson (rules : IndentRules) : SpelledBy rules (toJson rules) := by
  refine ⟨_, rfl, ?_⟩
  rw [List.forall₂_map_right_iff]
  exact List.forall₂_same.2 fun rule _ => rule.spelledBy_toJson

/-- **A table is read from each of its spellings**, and is written as one of them. An offset that is
left out is read as zero. -/
theorem offsets_of_ofJson? {json : Json} {rules : IndentRules}
    (hread : IndentRules.ofJson? json = some rules) :
    ∃ items, json = .array items ∧
      List.Forall₂ (fun rule item => IndentRule.OmitsOffset item → rule.offset = 0)
        rules items := by
  cases json with
  | array items =>
      refine ⟨items, rfl, (mapM_eq_some_iff.1 hread).imp fun rule item hitem homits => ?_⟩
      exact homits.offset_eq hitem
  | _ => cases hread

end IndentRules

end HclEdit
