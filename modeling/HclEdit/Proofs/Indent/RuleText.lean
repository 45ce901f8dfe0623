import HclEdit.Proofs.Indent.RuleJson
import HclEdit.Proofs.Json.Printed

/-!
# Rule tables and their JSON text

The text of a rule table is read back as that table, as long as its matchers are nested no deeper
than readers of JSON accept. A table that has been read from a text is never nested deeper than the
text was, so it always survives being written and read again.
-/

namespace HclEdit

namespace Matcher

/-! ### What is written -/

theorem printable_tagged (tag : String) {operand : Json} (hoperand : operand.Printable) :
    (Json.object [("match", .string tag), ("kind", operand)]).Printable := by
  refine .object (List.forall_mem_cons.2 ⟨.string tag, ?_⟩)
  exact List.forall_mem_singleton.2 hoperand

theorem printable_untagged (tag : String) :
    (Json.object [("match", .string tag)]).Printable :=
  .object (List.forall_mem_singleton.2 (.string tag))

mutual

theorem printable_toJson : ∀ matcher : Matcher, matcher.toJson.Printable
  | .nodeIs kind | .parentIs kind | .grandParentIs kind | .firstOfKind kind => by
      rw [toJson]
      exact printable_tagged _ (.string kind)
  | .noParent | .always => by
      rw [toJson]
      exact printable_untagged _
  | .all inner | .any inner => by
      rw [toJson]
      exact printable_tagged _ (.array (printable_of_mem_listToJson inner))

theorem printable_of_mem_listToJson : ∀ matchers : List Matcher,
    ∀ item ∈ listToJson matchers, item.Printable
  | [] => by
      rw [listToJson]
      exact fun item hitem => absurd hitem List.not_mem_nil
  | matcher :: rest => by
      rw [listToJson, List.forall_mem_cons]
      exact ⟨printable_toJson matcher, printable_of_mem_listToJson rest⟩

end

mutual

theorem relevant_toJson : ∀ matcher : Matcher, relevant matcher.toJson = matcher.toJson
  | .nodeIs _ | .parentIs _ | .grandParentIs _ | .firstOfKind _ | .noParent | .always => by
      simp [toJson, relevant, relevantMembers, relevantOperand]
  | .all inner | .any inner => by
      simp [toJson, relevant, relevantMembers, relevantOperand, relevantItems_listToJson inner]

theorem relevantItems_listToJson : ∀ matchers : List Matcher,
    relevantItems (listToJson matchers) = listToJson matchers
  | [] => by rw [listToJson, relevantItems]
  | matcher :: rest => by
      rw [listToJson, relevantItems, relevant_toJson matcher, relevantItems_listToJson rest]

end

/-! ### What has been read -/

/-- A value whose relevant part is sound, or all of it. -/
def SoundAsRead (levels : Nat) (json : Json) : Prop :=
  (relevant json).isSound levels = true ∨ json.isSound levels = true

/-- What stands as the operand of a matcher. -/
inductive HasOperand (operand : Json) : Json → Prop where
  | member {members : List (String × Json)} (hmem : operand ∈ Json.valuesOf "kind" members) :
      HasOperand operand (.object members)
  | item (tag : Json) : HasOperand operand (.array [tag, operand])

/-- The matchers within a matcher. -/
def inner? : Matcher → Option (List Matcher)
  | .all inner | .any inner => some inner
  | _ => none

theorem eq_inner_of_ofOperand? {tag : String} {operand : Operand} {matcher : Matcher}
    {inner : List Matcher} (hread : ofOperand? tag operand = some matcher)
    (hinner : matcher.inner? = some inner) : operand = .inner inner := by
  unfold ofOperand? at hread
  split at hread <;> cases hread <;> cases hinner <;> rfl

theorem exists_of_readOperand_eq_inner {setAside : Bool} {operand : Json} {inner : List Matcher}
    (hread : readOperand setAside operand = .inner inner) :
    ∃ items, operand = .array items ∧ listOfJson? setAside items = some inner := by
  cases operand with
  | array items =>
      rw [readOperand] at hread
      cases hitems : listOfJson? setAside items with
      | none =>
          rw [hitems] at hread
          cases hread
      | some matchers =>
          rw [hitems] at hread
          cases hread
          exact ⟨items, rfl, hitems⟩
  | _ =>
      rw [readOperand] at hread
      all_goals cases hread

theorem SoundAsRead.exists_succ {levels : Nat} {json : Json} (hsound : SoundAsRead levels json)
    {setAside : Bool} {matcher : Matcher} (hread : ofJson? setAside json = some matcher) :
    ∃ below, levels = below + 1 := by
  cases levels with
  | succ below => exact ⟨below, rfl⟩
  | zero =>
      unfold ofJson? at hread
      split at hread
      · simp [SoundAsRead, relevant, Json.isSound] at hsound
      · simp [SoundAsRead, relevant, Json.isSound] at hsound
      · cases hread

theorem exists_operand_of_ofJson? {setAside : Bool} {json : Json} {matcher : Matcher}
    (hread : ofJson? setAside json = some matcher) {inner : List Matcher}
    (hinner : matcher.inner? = some inner) :
    ∃ aside items, HasOperand (.array items) json ∧ listOfJson? aside items = some inner := by
  unfold ofJson? at hread
  split at hread
  · next members =>
      obtain ⟨given, -, hread⟩ := Option.bind_eq_some_iff.1 hread
      obtain ⟨tag, -, hread⟩ := Option.bind_eq_some_iff.1 hread
      have hvalues := operands_forall₂ setAside false members
      split at hread
      · cases eq_inner_of_ofOperand? hread hinner
      · next operand hoperands =>
          rw [hoperands, List.forall₂_cons_left_iff] at hvalues
          obtain ⟨value, others, ⟨aside, rfl⟩, -, hmem⟩ := hvalues
          obtain ⟨items, rfl, hitems⟩ :=
            exists_of_readOperand_eq_inner (eq_inner_of_ofOperand? hread hinner)
          exact ⟨aside, items, .member (hmem ▸ List.mem_cons_self), hitems⟩
      · cases hread
  · next tag operand =>
      obtain ⟨name, -, hread⟩ := Option.bind_eq_some_iff.1 hread
      obtain ⟨items, rfl, hitems⟩ :=
        exists_of_readOperand_eq_inner (eq_inner_of_ofOperand? hread hinner)
      exact ⟨setAside, items, .item tag, hitems⟩
  · cases hread

/-- The values of a matcher's operand are kept whole or in their relevant parts. -/
theorem sound_of_relevantMembers {levels : Nat} {tagged : Bool} {members : List (String × Json)}
    (hsound : Json.areSoundMembers levels (relevantMembers tagged members) = true) {operand : Json}
    (hmem : operand ∈ Json.valuesOf "kind" members) :
    (relevantOperand operand).isSound levels = true ∨ operand.isSound levels = true := by
  induction members generalizing tagged with
  | nil => exact absurd hmem List.not_mem_nil
  | cons member rest ih =>
      obtain ⟨key, value⟩ := member
      rw [Json.valuesOf_cons] at hmem
      rw [relevantMembers] at hsound
      split at hsound
      · next hkey =>
          rw [if_pos hkey, List.mem_cons] at hmem
          rw [Json.areSoundMembers, Bool.and_eq_true] at hsound
          rcases hmem with rfl | hmem
          · cases tagged with
            | true => exact .inl hsound.1
            | false => exact .inr hsound.1
          · exact ih hsound.2 hmem
      · next hkey =>
          rw [if_neg hkey] at hmem
          split at hsound
          · rw [Json.areSoundMembers, Bool.and_eq_true] at hsound
            exact ih hsound.2 hmem
          · exact ih hsound hmem

theorem SoundAsRead.operand {levels : Nat} {operand json : Json}
    (hsound : SoundAsRead levels json) (hoperand : HasOperand operand json) :
    ∃ below, levels = below + 1 ∧
      ((relevantOperand operand).isSound below = true ∨ operand.isSound below = true) := by
  cases levels with
  | zero => cases hoperand <;> simp [SoundAsRead, relevant, Json.isSound] at hsound
  | succ below =>
      refine ⟨below, rfl, ?_⟩
      cases hoperand with
      | @member members hmem =>
          rw [SoundAsRead, relevant, Json.isSound, Json.isSound] at hsound
          rcases hsound with hsound | hsound
          · exact sound_of_relevantMembers hsound hmem
          · exact .inr (Json.areSoundMembers_iff.1 hsound _ (Json.exists_of_mem_valuesOf hmem))
      | item tag =>
          simp only [SoundAsRead, relevant, Json.isSound, Json.areSound, Bool.and_eq_true] at hsound
          exact hsound.imp (·.2.1) (·.2.1)

theorem relevantItems_eq_map (items : List Json) : relevantItems items = items.map relevant := by
  induction items with
  | nil => rw [relevantItems, List.map_nil]
  | cons item rest ih => rw [relevantItems, List.map_cons, ih]

theorem SoundAsRead.items {levels : Nat} {items : List Json} {json : Json}
    (hsound : SoundAsRead levels json) (hoperand : HasOperand (.array items) json) :
    ∃ below, levels = below + 2 ∧ ∀ item ∈ items, SoundAsRead below item := by
  obtain ⟨outer, rfl, hitems⟩ := hsound.operand hoperand
  rw [relevantOperand, relevantItems_eq_map] at hitems
  cases outer with
  | zero => simp [Json.isSound] at hitems
  | succ below =>
      refine ⟨below, rfl, fun item hmem => ?_⟩
      rw [Json.isSound, Json.isSound, Json.areSound_iff, Json.areSound_iff] at hitems
      rcases hitems with hitems | hitems
      · exact .inl (hitems _ (List.mem_map_of_mem hmem))
      · exact .inr (hitems item hmem)

theorem isSound_of_inner?_eq_none {matcher : Matcher} (hinner : matcher.inner? = none)
    (levels : Nat) : matcher.toJson.isSound (levels + 1) = true := by
  cases matcher with
  | all inner => cases hinner
  | any inner => cases hinner
  | _ => simp [toJson, Json.isSound, Json.areSoundMembers]

theorem isSound_of_inner?_eq_some {matcher : Matcher} {inner : List Matcher}
    (hinner : matcher.inner? = some inner) {levels : Nat}
    (hsound : Json.areSound levels (listToJson inner) = true) :
    matcher.toJson.isSound (levels + 2) = true := by
  cases matcher with
  | all others =>
      cases hinner
      simp [toJson, Json.isSound, Json.areSoundMembers, hsound]
  | any others =>
      cases hinner
      simp [toJson, Json.isSound, Json.areSoundMembers, hsound]
  | _ => cases hinner

mutual

theorem isSound_toJson : ∀ (matcher : Matcher) {levels : Nat} {json : Json} {setAside : Bool},
    SoundAsRead levels json → ofJson? setAside json = some matcher →
      matcher.toJson.isSound levels = true
  | .all inner, _, _, _, hsound, hread | .any inner, _, _, _, hsound, hread => by
      obtain ⟨aside, items, hoperand, hitems⟩ := exists_operand_of_ofJson? hread rfl
      obtain ⟨below, rfl, hinner⟩ := hsound.items hoperand
      exact isSound_of_inner?_eq_some rfl (areSound_listToJson inner hinner hitems)
  | .nodeIs _, _, _, _, hsound, hread | .parentIs _, _, _, _, hsound, hread
  | .grandParentIs _, _, _, _, hsound, hread | .firstOfKind _, _, _, _, hsound, hread
  | .noParent, _, _, _, hsound, hread | .always, _, _, _, hsound, hread => by
      obtain ⟨below, rfl⟩ := hsound.exists_succ hread
      exact isSound_of_inner?_eq_none rfl below

theorem areSound_listToJson : ∀ (matchers : List Matcher) {levels : Nat} {items : List Json}
    {setAside : Bool}, (∀ item ∈ items, SoundAsRead levels item) →
      listOfJson? setAside items = some matchers → Json.areSound levels (listToJson matchers) = true
  | [], levels, items, setAside, hsound, hread => by
      rw [listToJson, Json.areSound]
  | matcher :: rest, levels, items, setAside, hsound, hread => by
      cases items with
      | nil =>
          rw [listOfJson?] at hread
          cases hread
      | cons item others =>
          rw [listOfJson?] at hread
          obtain ⟨first, hfirst, hread⟩ := Option.bind_eq_some_iff.1 hread
          obtain ⟨following, hfollowing, hread⟩ := Option.bind_eq_some_iff.1 hread
          cases hread
          rw [List.forall_mem_cons] at hsound
          rw [listToJson, Json.areSound, Bool.and_eq_true]
          exact ⟨isSound_toJson matcher hsound.1 hfirst,
            areSound_listToJson rest hsound.2 hfollowing⟩

end

end Matcher

/-! ### Rules -/

namespace IndentRule

theorem fitsInteger_toInt (offset : Int32) : Json.FitsInteger offset.toInt := by
  have hlow := offset.le_toInt
  have hhigh := offset.toInt_lt
  constructor
  · exact Int.le_trans (by decide) hlow
  · exact Int.lt_trans hhigh (by decide)

theorem printable_toJson (rule : IndentRule) : rule.toJson.Printable := by
  refine .object (List.forall_mem_cons.2 ⟨rule.matcher.printable_toJson, ?_⟩)
  refine List.forall_mem_cons.2 ⟨.string rule.anchor.name, ?_⟩
  exact List.forall_mem_singleton.2 (.integer (fitsInteger_toInt rule.offset))

theorem relevant_toJson (rule : IndentRule) : relevant rule.toJson = rule.toJson := by
  simp [relevant, toJson, Matcher.relevant_toJson]

theorem isSound_of_ofFields? {levels : Nat} {matcher anchor : Json} {offset : Option Json}
    (hsound : (Matcher.relevant matcher).isSound levels = true) {rule : IndentRule}
    (hread : ofFields? matcher anchor offset = some rule) :
    rule.toJson.isSound (levels + 1) = true := by
  obtain ⟨hmatcher, -, -⟩ := ofFields?_eq_some_iff.1 hread
  have hsound := rule.matcher.isSound_toJson (.inl hsound) hmatcher
  simp [toJson, Json.isSound, Json.areSoundMembers, hsound]

theorem mem_relevant_of_field? {members : List (String × Json)} {matcher : Json}
    (hfield : Json.field? "matcher" members = some (some matcher)) :
    ∃ others, relevant (.object members) = .object others ∧
      ("matcher", Matcher.relevant matcher) ∈ others := by
  refine ⟨_, rfl, List.mem_filterMap.2 ⟨("matcher", matcher), ?_, rfl⟩⟩
  exact Json.exists_of_mem_valuesOf (Json.mem_valuesOf_of_field? hfield)

theorem isSound_toJson {levels : Nat} {json : Json} (hsound : (relevant json).isSound levels = true)
    {rule : IndentRule} (hread : ofJson? json = some rule) : rule.toJson.isSound levels = true := by
  unfold ofJson? at hread
  split at hread
  · next members =>
      obtain ⟨given, hfield, hread⟩ := Option.bind_eq_some_iff.1 hread
      obtain ⟨anchor?, -, hread⟩ := Option.bind_eq_some_iff.1 hread
      obtain ⟨offset?, -, hread⟩ := Option.bind_eq_some_iff.1 hread
      obtain ⟨matcher, hmatcher, hread⟩ := Option.bind_eq_some_iff.1 hread
      obtain ⟨anchor, -, hread⟩ := Option.bind_eq_some_iff.1 hread
      rw [hmatcher] at hfield
      obtain ⟨others, hrelevant, hmem⟩ := mem_relevant_of_field? hfield
      rw [hrelevant] at hsound
      cases levels with
      | zero => simp [Json.isSound] at hsound
      | succ below =>
          rw [Json.isSound, Json.areSoundMembers_iff] at hsound
          exact isSound_of_ofFields? (hsound _ hmem) hread
  · next matcher anchor =>
      rw [relevant] at hsound
      cases levels with
      | zero => simp [Json.isSound] at hsound
      | succ below =>
          rw [Json.isSound, Json.areSound_iff] at hsound
          exact isSound_of_ofFields? (hsound _ List.mem_cons_self) hread
  · next matcher anchor offset =>
      rw [relevant] at hsound
      cases levels with
      | zero => simp [Json.isSound] at hsound
      | succ below =>
          rw [Json.isSound, Json.areSound_iff] at hsound
          exact isSound_of_ofFields? (hsound _ List.mem_cons_self) hread
  · cases hread

end IndentRule

namespace IndentRules

theorem printable_toJson (rules : IndentRules) : (toJson rules).Printable := by
  refine .array fun item hitem => ?_
  obtain ⟨rule, -, rfl⟩ := List.mem_map.1 hitem
  exact rule.printable_toJson

theorem relevant_toJson (rules : IndentRules) : relevant (toJson rules) = toJson rules := by
  simp [relevant, toJson, Function.comp_def, IndentRule.relevant_toJson]

theorem exists_item_of_mem {items : List Json} {rules : IndentRules}
    (hread : items.mapM IndentRule.ofJson? = some rules) {rule : IndentRule}
    (hrule : rule ∈ rules) :
    ∃ item ∈ items, IndentRule.ofJson? item = some rule := by
  have hrules := mapM_eq_some_iff.1 hread
  clear hread
  induction hrules with
  | nil => exact absurd hrule List.not_mem_nil
  | cons hfirst _ ih =>
      rcases List.mem_cons.1 hrule with rfl | hrule
      · exact ⟨_, List.mem_cons_self, hfirst⟩
      · obtain ⟨item, hitem, hread⟩ := ih hrule
        exact ⟨item, List.mem_cons_of_mem _ hitem, hread⟩

theorem isSound_toJson {levels : Nat} {json : Json} (hsound : (relevant json).isSound levels = true)
    {rules : IndentRules} (hread : ofJson? json = some rules) :
    (toJson rules).isSound levels = true := by
  cases json with
  | array items =>
      rw [relevant] at hsound
      cases levels with
      | zero => simp [Json.isSound] at hsound
      | succ below =>
          rw [Json.isSound, Json.areSound_iff] at hsound
          rw [toJson, Json.isSound, Json.areSound_iff]
          intro json hjson
          obtain ⟨rule, hrule, rfl⟩ := List.mem_map.1 hjson
          obtain ⟨item, hitem, hread⟩ := exists_item_of_mem hread hrule
          exact IndentRule.isSound_toJson (hsound _ (List.mem_map_of_mem hitem)) hread
  | _ => cases hread

/-- The text of a table is read as long as its nesting is within the limit. -/
theorem read?_compact (rules : IndentRules) :
    read? (toJson rules).compact =
      if (toJson rules).isSound Json.maxLevels then some rules else none := by
  rw [read?, Json.read?_compact (printable_toJson rules)]
  dsimp only [bind, Option.bind]
  rw [relevant_toJson, (spelledBy_toJson rules).ofJson?]

theorem read?_compact_of_read? {text : Text} {rules : IndentRules}
    (hread : read? text = some rules) : read? (toJson rules).compact = some rules := by
  obtain ⟨json, hjson, hread⟩ := Option.bind_eq_some_iff.1 hread
  split at hread
  · next hsound => rw [read?_compact, if_pos (isSound_toJson hsound hread)]
  · cases hread

/-- **Rule tables survive their JSON form.** What a table is written as is read as that table, and
so is every other spelling of it. What has been read from any value is read again from what it is
written as, and a rule that gives no offset has an offset of zero. The same holds for texts: a table
is read from its text if its nesting is within the limit of readers, and the text of a table that
has been read from a text always is. -/
theorem rules_survive_json :
    (∀ rules : IndentRules, ofJson? (toJson rules) = some rules) ∧
    (∀ rules json, SpelledBy rules json → ofJson? json = some rules) ∧
    (∀ json rules, ofJson? json = some rules →
      ofJson? (toJson rules) = some rules ∧
        ∃ items, json = .array items ∧ List.Forall₂
          (fun rule item => IndentRule.OmitsOffset item → rule.offset = 0) rules items) ∧
    (∀ rules : IndentRules, (toJson rules).isSound Json.maxLevels = true →
      read? (toJson rules).compact = some rules) ∧
    ∀ text rules, read? text = some rules → read? (toJson rules).compact = some rules := by
  refine ⟨?written, ?spelled, ?again, ?text, ?textAgain⟩
  case written => exact fun rules => (spelledBy_toJson rules).ofJson?
  case spelled => exact fun rules json hspelled => hspelled.ofJson?
  case again =>
    intro json rules hread
    exact ⟨(spelledBy_toJson rules).ofJson?, offsets_of_ofJson? hread⟩
  case text =>
    intro rules hsound
    rw [read?_compact, if_pos hsound]
  case textAgain => exact fun text rules hread => read?_compact_of_read? hread

/-- Nested matchers, a name that needs escapes, and an offset to the left. -/
def escapedRules : IndentRules :=
  [⟨.all [.parentIs "é\"\n\x01", .any []], .parentLine, -4⟩, ⟨.noParent, .margin, 0⟩]

/-- A rule with its members in another order, one more among them, and no offset. -/
def looseRules : Json :=
  .array [.object [("anchor", .string "column0"), ("note", .null),
    ("matcher", .object [("kind", .array [.object [("match", .string "no_parent")]]),
      ("match", .string "all")])]]

theorem rules_survive_json_escaped :
    ofJson? (toJson escapedRules) = some escapedRules ∧
      read? (toJson escapedRules).compact = some escapedRules ∧
      SpelledBy [⟨.all [.noParent], .margin, 0⟩] looseRules ∧
      ofJson? looseRules = some [⟨.all [.noParent], .margin, 0⟩] ∧
      ofJson? (toJson [⟨.all [.noParent], .margin, 0⟩]) =
        some [⟨.all [.noParent], .margin, 0⟩] := by
  obtain ⟨hwritten, hspelled, hagain, htext, htextAgain⟩ := rules_survive_json
  have hread := htext escapedRules (by decide)
  have hloose : SpelledBy [⟨.all [.noParent], .margin, 0⟩] looseRules := by
    refine ⟨_, rfl, .cons (.object rfl ?_ rfl (.inr ⟨rfl, rfl⟩)) .nil⟩
    exact ⟨_, .object rfl rfl, _, _, rfl, .object rfl rfl, rfl⟩
  have hofJson := hspelled _ _ hloose
  exact ⟨hwritten _, htextAgain _ _ hread, hloose, hofJson, (hagain _ _ hofJson).1⟩

end IndentRules

end HclEdit
