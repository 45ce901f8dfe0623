import HclEdit.Proofs.Problem.LocationPattern
import HclEdit.Proofs.Problem.Segment
import HclEdit.Proofs.Text.Decimal
import Mathlib.Data.List.Basic

/-!
# The shortest source counts

A location line can be cut into its parts in several ways. The number that is used stands behind the
shortest source. Whether a source could end earlier shows before its end, so what follows it, a
scope that reads like another location included, does not matter.
-/

namespace HclEdit

namespace Location

/-! ### Sources that cannot be shorter -/

theorem digitsAt?_eq_some_iff {text digits : Text} :
    digitsAt? text = some digits ↔
      ∃ tail, text = numbered digits tail ∧ digits ≠ [] ∧
        (∀ c ∈ digits, Text.isDecimalDigit c = true) ∧ isTail tail = true := by
  constructor
  · intro hdigits
    rw [digitsAt?_eq] at hdigits
    split at hdigits
    · next hfront =>
        obtain ⟨rest, rfl⟩ := List.isPrefixOf_iff_prefix.1 hfront
        simp only [leadingDigits?] at hdigits
        split at hdigits
        · next hcond =>
            obtain rfl := Option.some.inj hdigits
            rw [Bool.and_eq_true, Bool.not_eq_true'] at hcond
            refine ⟨_, ?_, List.isEmpty_eq_false_iff.1 hcond.1,
              List.all_eq_true.1 List.all_takeWhile, hcond.2⟩
            rw [numbered, List.takeWhile_append_dropWhile]
            rfl
        · cases hdigits
    · cases hdigits
  · rintro ⟨tail, rfl, hne, hdigits, htail⟩
    exact digitsAt?_numbered hne hdigits htail

/-- No digits are found when a source ends before it does. -/
def EndsNowhereIn (source rest : Text) : Prop :=
  ∀ front back, source = front ++ back → front ≠ [] → back ≠ [] → digitsAt? (back ++ rest) = none

theorem endsNowhereIn_singleton (c : Char) (rest : Text) : EndsNowhereIn [c] rest := by
  intro front back hsource hfront hback
  have hlength := congrArg List.length hsource
  have hfront' := List.length_pos_iff.2 hfront
  have hpos := List.length_pos_iff.2 hback
  rw [List.length_singleton, List.length_append] at hlength
  omega

theorem endsNowhereIn_cons {c : Char} {source rest : Text} (hne : source ≠ []) :
    EndsNowhereIn (c :: source) rest ↔
      digitsAt? (source ++ rest) = none ∧ EndsNowhereIn source rest := by
  constructor
  · intro hnowhere
    refine ⟨hnowhere [c] source rfl nofun hne, fun front back hsource _ hback => ?_⟩
    exact hnowhere (c :: front) back (congrArg (c :: ·) hsource) nofun hback
  · rintro ⟨hnone, hnowhere⟩ front back hsource hfront hback
    obtain ⟨d, others, rfl⟩ := List.exists_cons_of_ne_nil hfront
    obtain ⟨rfl, rfl⟩ := List.cons.inj hsource
    by_cases hothers : others = []
    · subst hothers
      exact hnone
    · exact hnowhere others back rfl hothers hback

theorem digitsAfterSource?_of_endsNowhereIn {source rest digits : Text} (hne : source ≠ [])
    (hrest : digitsAt? rest = some digits) (hnowhere : EndsNowhereIn source rest) :
    digitsAfterSource? (source ++ rest) = some digits := by
  induction source with
  | nil => exact absurd rfl hne
  | cons c more ih =>
      rw [List.cons_append, digitsAfterSource?_cons]
      by_cases hmore : more = []
      · rw [hmore, List.nil_append, hrest, Option.some_or]
      · obtain ⟨hnone, hlater⟩ := (endsNowhereIn_cons hmore).1 hnowhere
        rw [hnone, Option.none_or, ih hmore hlater]

theorem exists_source_of_digitsAfterSource? {text digits : Text}
    (hdigits : digitsAfterSource? text = some digits) :
    ∃ source rest, text = source ++ rest ∧ source ≠ [] ∧ digitsAt? rest = some digits ∧
      EndsNowhereIn source rest := by
  induction text with
  | nil => exact absurd hdigits nofun
  | cons c more ih =>
      rw [digitsAfterSource?_cons] at hdigits
      cases hmore : digitsAt? more with
      | some found =>
          rw [hmore, Option.some_or] at hdigits
          exact ⟨[c], more, rfl, nofun, hmore.trans hdigits, endsNowhereIn_singleton c more⟩
      | none =>
          rw [hmore, Option.none_or] at hdigits
          obtain ⟨source, rest, rfl, hne, hrest, hnowhere⟩ := ih hdigits
          exact ⟨c :: source, rest, rfl, nofun, hrest, (endsNowhereIn_cons hne).2 ⟨hmore, hnowhere⟩⟩

theorem isSome_digitsAfterSource? {source rest : Text} (hne : source ≠ [])
    (hrest : (digitsAt? rest).isSome = true) :
    (digitsAfterSource? (source ++ rest)).isSome = true := by
  induction source with
  | nil => exact absurd rfl hne
  | cons c more ih =>
      rw [List.cons_append, digitsAfterSource?_cons, Option.isSome_or, Bool.or_eq_true]
      by_cases hmore : more = []
      · subst hmore
        exact Or.inl hrest
      · exact Or.inr (ih hmore)

/-- Where ` line ` is found twice in a row, the second one does not begin within the first. -/
theorem exists_append_of_numbered {back digits tail found left : Text} (hne : back ≠ [])
    (hfound : ∀ c ∈ found, Text.isDecimalDigit c = true) (hnonempty : found ≠ [])
    (heq : back ++ numbered digits tail = numbered found left) :
    ∃ later, back = numbered later [] ∧ later ++ numbered digits tail = found ++ left := by
  rcases back with _ | ⟨a, _ | ⟨b, _ | ⟨c, _ | ⟨d, _ | ⟨e, _ | ⟨f, later⟩⟩⟩⟩⟩⟩
  case nil => exact absurd rfl hne
  case cons.cons.cons.cons.cons.cons =>
    simp only [numbered, List.cons_append, List.cons.injEq] at heq
    obtain ⟨rfl, rfl, rfl, rfl, rfl, rfl, hlater⟩ := heq
    exact ⟨later, by rw [numbered, List.append_nil], hlater⟩
  case cons.cons.cons.cons.cons.nil =>
    obtain ⟨first, others, rfl⟩ := List.exists_cons_of_ne_nil hnonempty
    simp only [numbered, List.cons_append, List.nil_append, List.cons.injEq] at heq
    obtain ⟨-, -, -, -, -, -, rfl, -⟩ := heq
    exact absurd (hfound 'l' List.mem_cons_self) (by decide)
  all_goals simp [numbered] at heq

/-- A source that could end before it does tells so by itself: what it goes on with are digits and a
comma, behind which there is nothing or a space. -/
theorem exists_comma_of_append {back digits tail found left : Text} (hne : back ≠ [])
    (hfound : ∀ c ∈ found, Text.isDecimalDigit c = true) (hnonempty : found ≠ [])
    (hleft : isTail left = true) (heq : back ++ numbered digits tail = numbered found left) :
    ∃ more, back = numbered found (',' :: more) ∧ (more = [] ∨ ∃ others, more = ' ' :: others) := by
  obtain ⟨later, rfl, hlater⟩ := exists_append_of_numbered hne hfound hnonempty heq
  have hspace : ∀ others, left ≠ ' ' :: others := by
    rintro others rfl
    exact absurd hleft Bool.false_ne_true
  rcases List.append_eq_append_iff.1 hlater with ⟨inner, rfl, hinner⟩ | ⟨more, rfl, hmore⟩
  · -- the digits end within the source, since a space follows it
    cases inner with
    | nil => exact absurd hinner.symm (hspace _)
    | cons c others =>
        obtain ⟨rfl, -⟩ := List.cons.inj hinner
        exact absurd (hfound ' ' (List.mem_append_right _ List.mem_cons_self)) (by decide)
  · obtain ⟨scope?, after, hafter, htail⟩ := isTail_iff.1 hleft
    rw [hmore] at htail
    cases more with
    | nil => exact absurd hmore (hspace _)
    | cons c more =>
        cases scope? with
        | none =>
            obtain ⟨-, rfl⟩ := List.cons.inj htail
            have hblank : Text.isBlank 'l' = true :=
              List.all_eq_true.1 hafter 'l' (List.mem_append_right _ (by simp [numbered]))
            exact absurd hblank (by decide)
        | some scope =>
            obtain ⟨rfl, hrest⟩ := List.cons.inj htail
            refine ⟨more, by simp [numbered], ?_⟩
            cases more with
            | nil => exact Or.inl rfl
            | cons d others =>
                obtain ⟨rfl, -⟩ := List.cons.inj hrest
                exact Or.inr ⟨others, rfl⟩

theorem isTail_comma {more digits tail : Text}
    (hmore : more = [] ∨ ∃ others, more = ' ' :: others) (htail : isTail tail = true) :
    isTail (',' :: more ++ numbered digits tail) = true := by
  obtain ⟨scope?, after, hafter, rfl⟩ := isTail_iff.1 htail
  rcases hmore with rfl | ⟨others, rfl⟩
  · refine isTail_iff.2 ⟨some (['l', 'i', 'n', 'e', ' '] ++ digits ++
      scope?.elim [] fun scope => ',' :: ' ' :: scope), after, hafter, ?_⟩
    simp [numbered, tailOf]
  · refine isTail_iff.2 ⟨some (others ++ numbered digits
      (scope?.elim [] fun scope => ',' :: ' ' :: scope)), after, hafter, ?_⟩
    simp [numbered, tailOf]

/-- Whether a source could end earlier does not depend on what follows it. -/
theorem EndsNowhereIn.of_isSome {source rest other : Text} (hnowhere : EndsNowhereIn source rest)
    (hrest : (digitsAt? rest).isSome = true) (hother : (digitsAt? other).isSome = true) :
    EndsNowhereIn source other := by
  obtain ⟨digits, hdigits⟩ := Option.isSome_iff_exists.1 hrest
  obtain ⟨tail, rfl, -, -, htail⟩ := digitsAt?_eq_some_iff.1 hdigits
  obtain ⟨otherDigits, hotherDigits⟩ := Option.isSome_iff_exists.1 hother
  obtain ⟨otherTail, rfl, -, -, -⟩ := digitsAt?_eq_some_iff.1 hotherDigits
  intro front back hsource hfront hback
  rw [Option.eq_none_iff_forall_ne_some]
  intro found hfound
  obtain ⟨left, heq, hne, hdecimal, hleft⟩ := digitsAt?_eq_some_iff.1 hfound
  obtain ⟨more, rfl, hmore⟩ := exists_comma_of_append hback hdecimal hne hleft heq
  have hearlier :
      digitsAt? (numbered found (',' :: more) ++ numbered digits tail) = some found := by
    refine digitsAt?_eq_some_iff.2
      ⟨',' :: more ++ numbered digits tail, ?_, hne, hdecimal, isTail_comma hmore htail⟩
    simp [numbered]
  cases (hnowhere front _ hsource hfront hback).symm.trans hearlier

/-! ### Cuts of a location line -/

/-- The parts into which a location line can be cut. -/
structure Cut where
  before : Text
  source : Text
  digits : Text
  scope? : Option Text
  after : Text
  before_blank : Text.isBlankText before = true
  source_ne_nil : source ≠ []
  digits_ne_nil : digits ≠ []
  digits_decimal : ∀ c ∈ digits, Text.isDecimalDigit c = true
  after_blank : Text.isBlankText after = true

namespace Cut

/-- What follows the source. -/
def rest (cut : Cut) : Text :=
  numbered cut.digits (tailOf cut.scope? cut.after)

def text (cut : Cut) : Text :=
  cut.before ++ 'o' :: 'n' :: ' ' :: (cut.source ++ cut.rest)

/-- No other cut of the same line has a shorter source. -/
def IsShortest (cut : Cut) : Prop :=
  ∀ other : Cut, other.text = cut.text → cut.source.length ≤ other.source.length

theorem digitsAt?_rest (cut : Cut) : digitsAt? cut.rest = some cut.digits :=
  digitsAt?_numbered cut.digits_ne_nil cut.digits_decimal
    (isTail_iff.2 ⟨cut.scope?, cut.after, cut.after_blank, rfl⟩)

theorem trimStart_text (cut : Cut) :
    Text.trimStart cut.text = 'o' :: 'n' :: ' ' :: (cut.source ++ cut.rest) := by
  rw [text, Text.trimStart_append (List.all_eq_true.1 cut.before_blank)]
  exact List.dropWhile_cons_of_neg (by decide)

theorem digits?_text (cut : Cut) :
    digits? cut.text = digitsAfterSource? (cut.source ++ cut.rest) := by
  rw [digits?, trimStart_text]
  rfl

theorem append_eq_of_text_eq {cut other : Cut} (htext : other.text = cut.text) :
    other.source ++ other.rest = cut.source ++ cut.rest := by
  have htrim := congrArg Text.trimStart htext
  rw [trimStart_text, trimStart_text] at htrim
  exact (List.append_right_inj ['o', 'n', ' ']).1 htrim

theorem isShortest_iff {cut : Cut} : cut.IsShortest ↔ EndsNowhereIn cut.source cut.rest := by
  constructor
  · intro hshortest front back hsource hfront hback
    rw [Option.eq_none_iff_forall_ne_some]
    intro digits hdigits
    obtain ⟨tail, hrest, hne, hdecimal, htail⟩ := digitsAt?_eq_some_iff.1 hdigits
    obtain ⟨scope?, after, hafter, rfl⟩ := isTail_iff.1 htail
    let other : Cut := ⟨cut.before, front, digits, scope?, after, cut.before_blank, hfront, hne,
      hdecimal, hafter⟩
    have htext : other.text = cut.text := by
      rw [text, text, hsource, List.append_assoc, hrest]
      rfl
    have hlength : cut.source.length ≤ front.length := hshortest other htext
    rw [hsource, List.length_append] at hlength
    have hpositive := List.length_pos_iff.2 hback
    omega
  · intro hnowhere other htext
    rcases List.append_eq_append_iff.1 (append_eq_of_text_eq htext) with
      ⟨back, hsource, hrest⟩ | ⟨back, hsource, -⟩
    · by_cases hback : back = []
      · rw [hsource, hback, List.append_nil]
      · have hnone := hnowhere other.source back hsource other.source_ne_nil hback
        rw [← hrest, other.digitsAt?_rest] at hnone
        exact absurd hnone nofun
    · rw [hsource, List.length_append]
      exact Nat.le_add_right _ _

theorem digits?_of_endsNowhereIn {cut : Cut} (hnowhere : EndsNowhereIn cut.source cut.rest) :
    digits? cut.text = some cut.digits := by
  rw [digits?_text]
  exact digitsAfterSource?_of_endsNowhereIn cut.source_ne_nil cut.digitsAt?_rest hnowhere

end Cut

theorem digits?_eq_some_iff {line digits : Text} :
    digits? line = some digits ↔
      ∃ cut : Cut, cut.text = line ∧ cut.IsShortest ∧ cut.digits = digits := by
  constructor
  · intro hdigits
    rw [digits?_eq] at hdigits
    split at hdigits
    · next hfront =>
        obtain ⟨after, hafter⟩ := List.isPrefixOf_iff_prefix.1 hfront
        obtain ⟨before, hline, hbefore⟩ := Text.exists_append_trimStart line
        rw [← hafter] at hdigits
        change digitsAfterSource? after = some digits at hdigits
        obtain ⟨source, rest, rfl, hne, hrest, hnowhere⟩ :=
          exists_source_of_digitsAfterSource? hdigits
        obtain ⟨tail, rfl, hnonempty, hdecimal, htail⟩ := digitsAt?_eq_some_iff.1 hrest
        obtain ⟨scope?, after, hblank, rfl⟩ := isTail_iff.1 htail
        let cut : Cut := ⟨before, source, digits, scope?, after, List.all_eq_true.2 hbefore, hne,
          hnonempty, hdecimal, hblank⟩
        exact ⟨cut, (hline.trans (congrArg (before ++ ·) hafter.symm)).symm,
          Cut.isShortest_iff.2 hnowhere, rfl⟩
    · exact absurd hdigits nofun
  · rintro ⟨cut, rfl, hshortest, rfl⟩
    exact Cut.digits?_of_endsNowhereIn (Cut.isShortest_iff.1 hshortest)

theorem isSome_digits?_iff {line : Text} :
    (digits? line).isSome = true ↔ ∃ cut : Cut, cut.text = line := by
  constructor
  · intro hsome
    obtain ⟨digits, hdigits⟩ := Option.isSome_iff_exists.1 hsome
    obtain ⟨cut, htext, -⟩ := digits?_eq_some_iff.1 hdigits
    exact ⟨cut, htext⟩
  · rintro ⟨cut, rfl⟩
    rw [cut.digits?_text]
    exact isSome_digitsAfterSource? cut.source_ne_nil (by rw [cut.digitsAt?_rest]; rfl)

/-! ### Numbers -/

/-- Digits stand for a line number when they are ASCII digits and their value has 64 bits. -/
theorem number?_eq_some_iff {digits : Text} {number : Nat} :
    number? digits = some number ↔
      digits ≠ [] ∧ (∀ c ∈ digits, c.isDigit = true) ∧ Nat.ofDigitChars 10 digits 0 = number ∧
        number < UInt64.size := by
  rw [number?, Option.filter_eq_some_iff, Text.natural?_eq_some_iff, decide_eq_true_eq, and_assoc,
    and_assoc]

end Location

namespace ProblemReader

/-- The digits that a leftmost-first match takes. -/
def matchedDigits? (line : Text) : Option Text :=
  (Location.pattern.capture? "line".toList line).join

theorem problems_eq_matched (output : Text) :
    problems output = (segments (lines output)).filterMap fun segment =>
      ((segment.body.findSome? matchedDigits?).bind Location.number?).map fun line =>
        ⟨line, segment.header.severity, segment.header.summary, segment.message⟩ := by
  rw [problems, readAll_fst, reported]
  apply List.filterMap_congr
  intro segment hsegment
  have hmatched : ∀ line ∈ segment.body, Location.digits? line = matchedDigits? line := by
    intro line hline
    rw [matchedDigits?, Location.capture?_pattern
      (newline_not_mem_lines (mem_of_mem_body hsegment hline))]
    cases Location.digits? line <;> rfl
  rw [← findSome?_congr hmatched]
  exact segment.problem?_eq

end ProblemReader

namespace Location

open ProblemReader

/-- **The shortest source counts.** Take a line without a line feed. A leftmost-first matcher
accepts it just when it can be cut into the parts of a location line, and takes for the digits what
the reader takes: those of the cut with the shortest source. That cut stays the shortest whatever
stands behind its source, and before it. Digits stand for a number when they are ASCII digits and
the number has 64 bits; a segment whose first location line has others stands for no problem. -/
theorem shortest_source_counts {line : Text} (hline : '\n' ∉ line) :
    (pattern.accepts line = true ↔ ∃ cut : Cut, cut.text = line) ∧
    pattern.capture? "line".toList line = (digits? line).map some ∧
    (∀ digits, digits? line = some digits ↔
      ∃ cut : Cut, cut.text = line ∧ cut.IsShortest ∧ cut.digits = digits) ∧
    (∀ cut : Cut, cut.text = line → cut.IsShortest →
      ∀ other : Cut, other.source = cut.source →
        other.IsShortest ∧ digits? other.text = some other.digits) ∧
    (∀ digits number, number? digits = some number ↔
      digits ≠ [] ∧ (∀ c ∈ digits, c.isDigit = true) ∧ Nat.ofDigitChars 10 digits 0 = number ∧
        number < UInt64.size) ∧
    ∀ output, problems output = (segments (lines output)).filterMap fun segment =>
      ((segment.body.findSome? matchedDigits?).bind number?).map fun number =>
        ⟨number, segment.header.severity, segment.header.summary, segment.message⟩ := by
  refine ⟨?accepts, capture?_pattern hline, fun digits => digits?_eq_some_iff, ?behind,
    fun digits number => number?_eq_some_iff, problems_eq_matched⟩
  case accepts =>
    rw [← Pattern.isSome_capture? pattern "line".toList line, capture?_pattern hline,
      Option.isSome_map, isSome_digits?_iff]
  case behind =>
    rintro cut - hshortest other hsource
    have hnowhere : EndsNowhereIn other.source other.rest := by
      rw [hsource]
      exact (Cut.isShortest_iff.1 hshortest).of_isSome (by rw [cut.digitsAt?_rest]; rfl)
        (by rw [other.digitsAt?_rest]; rfl)
    exact ⟨Cut.isShortest_iff.2 hnowhere, Cut.digits?_of_endsNowhereIn hnowhere⟩

/-- The source `a line 3 b` cannot be shorter: no tail follows the first number. -/
def scopedCut : Cut :=
  ⟨"  ".toList, "a line 3 b".toList, "7".toList, some "in x line 9".toList, [], rfl, nofun, nofun,
    List.all_eq_true.1 rfl, rfl⟩

/-- A cut of the same line with a longer source. -/
def longerCut : Cut :=
  ⟨"  ".toList, "a line 3 b line 7, in x".toList, "9".toList, none, [], rfl, nofun, nofun,
    List.all_eq_true.1 rfl, rfl⟩

theorem shortest_source_counts_scoped :
    '\n' ∉ scopedCut.text ∧ longerCut.text = scopedCut.text ∧
      pattern.accepts scopedCut.text = true ∧
      (∃ cut : Cut, cut.text = scopedCut.text ∧ cut.IsShortest ∧ cut.digits = ['7']) ∧
      pattern.capture? "line".toList scopedCut.text = some (some ['7']) ∧ number? ['7'] = some 7 ∧
      ∀ number, number? ['٣'] ≠ some number := by
  have hline : '\n' ∉ scopedCut.text := by decide
  obtain ⟨haccepts, hcapture, hshortest, -, hnumber, -⟩ := shortest_source_counts hline
  have hdigits : digits? scopedCut.text = some ['7'] := by decide +kernel
  refine ⟨hline, by decide, haccepts.2 ⟨scopedCut, rfl⟩, (hshortest ['7']).1 hdigits, ?_,
    (hnumber ['7'] 7).2 ⟨nofun, List.all_eq_true.1 rfl, rfl, by decide⟩, ?_⟩
  · rw [hcapture, hdigits]
    rfl
  · intro number hsome
    have hdigit := ((hnumber _ number).1 hsome).2.1 '٣' List.mem_cons_self
    exact absurd hdigit (by decide)

end Location

end HclEdit
