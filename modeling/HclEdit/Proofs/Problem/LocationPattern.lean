import HclEdit.Proofs.Problem.Location
import HclEdit.Proofs.Text.Pattern

/-!
# The pattern of a location line

A location line is told by a pattern, read leftmost first. The reader finds in one pass the digits
that the match takes: a tail cannot begin with a digit, so digits are taken in full, and the lazy
source is tried from the shortest on.
-/

namespace HclEdit

namespace Location

/-! ### The pattern -/

def isNotNewline (c : Char) : Bool :=
  c != '\n'

def scopePattern : Pattern :=
  .optional
    ((Pattern.literal [',', ' ']).followedBy (.named "scope".toList (.many true isNotNewline)))

def closingPattern : Pattern :=
  (Pattern.literal [':']).followedBy (.many true Text.isBlank)

def tailPattern : Pattern :=
  scopePattern.followedBy closingPattern

def numberPattern : Pattern :=
  (Pattern.literal [' ', 'l', 'i', 'n', 'e', ' ']).followedBy
    ((Pattern.named "line".toList (.oneOrMore true Text.isDecimalDigit)).followedBy tailPattern)

def sourcePattern : Pattern :=
  (Pattern.named "source".toList (.oneOrMore false isNotNewline)).followedBy numberPattern

/-- A location line: `^\s*on (?P<source>.+?) line (?P<line>\d+)(?:, (?P<scope>.*))?:\s*$`. -/
def pattern : Pattern :=
  (Pattern.many true Text.isBlank).followedBy
    ((Pattern.literal ['o', 'n', ' ']).followedBy sourcePattern)

/-! ### Tails -/

/-- What follows the digits: a scope perhaps, a colon and blanks. -/
def tailOf (scope? : Option Text) (after : Text) : Text :=
  (scope?.elim [] fun scope => ',' :: ' ' :: scope) ++ ':' :: after

theorem trimEnd_append_colon {after : Text} (hafter : Text.isBlankText after = true)
    (front : Text) : Text.trimEnd (front ++ ':' :: after) = front ++ [':'] := by
  rw [List.append_cons, Text.trimEnd_append (List.all_eq_true.1 hafter),
    Text.trimEnd_concat (by decide)]

theorem isTail_iff {text : Text} :
    isTail text = true ↔
      ∃ scope? after, Text.isBlankText after = true ∧ text = tailOf scope? after := by
  constructor
  · intro htail
    unfold isTail at htail
    split at htail
    · next after => exact ⟨none, after, htail, rfl⟩
    · next rest =>
        obtain ⟨scope, hscope⟩ := List.getLast?_eq_some_iff.1 (beq_iff_eq.1 htail)
        obtain ⟨after, hrest, hafter⟩ := Text.exists_append_trimEnd rest
        refine ⟨some scope, after, List.all_eq_true.2 hafter, ?_⟩
        rw [hrest, hscope, ← List.append_cons]
        rfl
    · exact absurd htail Bool.false_ne_true
  · rintro ⟨scope?, after, hafter, rfl⟩
    cases scope? with
    | none => exact hafter
    | some scope =>
        have htrim := trimEnd_append_colon hafter scope
        rw [tailOf, Option.elim_some, List.cons_append, List.cons_append, isTail, htrim,
          List.getLast?_concat, beq_self_eq_true]

theorem accepts_closingPattern {text : Text} :
    closingPattern.accepts text = true ↔
      ∃ after, Text.isBlankText after = true ∧ text = ':' :: after := by
  rw [closingPattern, Pattern.accepts_literal_followedBy]
  constructor
  · rintro ⟨after, rfl, hafter⟩
    exact ⟨after, List.all_eq_true.2 (Pattern.accepts_many.1 hafter), rfl⟩
  · rintro ⟨after, hafter, rfl⟩
    exact ⟨after, rfl, Pattern.accepts_many.2 (List.all_eq_true.1 hafter)⟩

theorem accepts_tailPattern_iff {text : Text} :
    tailPattern.accepts text = true ↔
      (∃ scope after, (∀ c ∈ scope, isNotNewline c = true) ∧ Text.isBlankText after = true ∧
        text = tailOf (some scope) after) ∨
      ∃ after, Text.isBlankText after = true ∧ text = tailOf none after := by
  rw [tailPattern, scopePattern, Pattern.accepts_optional_followedBy,
    Pattern.accepts_followedBy_followedBy, Pattern.accepts_literal_followedBy,
    accepts_closingPattern]
  simp only [Pattern.accepts_named_followedBy, Pattern.accepts_many_followedBy,
    accepts_closingPattern]
  refine or_congr ⟨?_, ?_⟩ Iff.rfl
  · rintro ⟨_, rfl, scope, _, rfl, hscope, after, hafter, rfl⟩
    exact ⟨scope, after, hscope, hafter, rfl⟩
  · rintro ⟨scope, after, hscope, hafter, rfl⟩
    exact ⟨_, rfl, scope, _, rfl, hscope, after, hafter, rfl⟩

theorem isTail_of_accepts {text : Text} (haccepts : tailPattern.accepts text = true) :
    isTail text = true := by
  rcases accepts_tailPattern_iff.1 haccepts with
    ⟨scope, after, -, hafter, rfl⟩ | ⟨after, hafter, rfl⟩
  · exact isTail_iff.2 ⟨some scope, after, hafter, rfl⟩
  · exact isTail_iff.2 ⟨none, after, hafter, rfl⟩

theorem accepts_tailPattern {text : Text} (htext : '\n' ∉ text) :
    tailPattern.accepts text = isTail text := by
  rw [Bool.eq_iff_iff]
  refine ⟨isTail_of_accepts, fun htail => ?_⟩
  obtain ⟨scope?, after, hafter, rfl⟩ := isTail_iff.1 htail
  cases scope? with
  | none => exact accepts_tailPattern_iff.2 (Or.inr ⟨after, hafter, rfl⟩)
  | some scope =>
      have hscope : ∀ c ∈ scope, isNotNewline c = true := by
        intro c hc
        refine bne_iff_ne.2 fun heq => htext ?_
        rw [← heq]
        exact List.mem_append_left _ (List.mem_cons_of_mem _ (List.mem_cons_of_mem _ hc))
      exact accepts_tailPattern_iff.2 (Or.inl ⟨scope, after, hscope, hafter, rfl⟩)

/-! ### What the pattern takes for the digits -/

/-- The digits with which a text begins, if a tail follows them. -/
def leadingDigits? (text : Text) : Option Text :=
  let digits := text.takeWhile Text.isDecimalDigit
  if ! digits.isEmpty && isTail (text.dropWhile Text.isDecimalDigit) then some digits else none

theorem digitsAt?_eq (text : Text) :
    digitsAt? text =
      if [' ', 'l', 'i', 'n', 'e', ' '].isPrefixOf text then leadingDigits? (text.drop 6)
      else none := by
  unfold digitsAt?
  split
  · rfl
  · next hother =>
      rw [if_neg]
      intro hfront
      obtain ⟨rest, rfl⟩ := List.isPrefixOf_iff_prefix.1 hfront
      exact hother rest rfl

theorem capture?_leadingDigits {text : Text} (htext : '\n' ∉ text) :
    ((Pattern.named "line".toList (.oneOrMore true Text.isDecimalDigit)).followedBy
      tailPattern).capture? "line".toList text = (leadingDigits? text).map some := by
  have hstop : ∀ (way : Pattern.Way) (c : Char) (rest : Text), way.rest = c :: rest →
      Text.isDecimalDigit c = true →
      (if tailPattern.accepts way.rest then some (some way.taken) else none) = none := by
    intro way c rest hrest hc
    rw [hrest, if_neg]
    intro haccepts
    rw [isDecimalDigit_of_isTail (isTail_of_accepts haccepts)] at hc
    exact absurd hc nofun
  have htail := accepts_tailPattern fun hmem =>
    htext ((List.dropWhile_suffix Text.isDecimalDigit).subset hmem)
  rw [Pattern.capture?_named_followedBy, Pattern.findSome?_oneOrMore_greedy hstop, leadingDigits?,
    htail]
  cases (text.takeWhile Text.isDecimalDigit).isEmpty <;>
    cases isTail (text.dropWhile Text.isDecimalDigit) <;> rfl

theorem capture?_numberPattern {text : Text} (htext : '\n' ∉ text) :
    numberPattern.capture? "line".toList text = (digitsAt? text).map some := by
  rw [numberPattern, Pattern.capture?_literal_followedBy, digitsAt?_eq]
  split
  · exact capture?_leadingDigits fun hmem => htext (List.mem_of_mem_drop hmem)
  · rfl

theorem digitsAfterSource?_cons (c : Char) (rest : Text) :
    digitsAfterSource? (c :: rest) = (digitsAt? rest).or (digitsAfterSource? rest) := by
  rw [digitsAfterSource?]
  cases digitsAt? rest <;> rfl

theorem capture?_sourcePattern {text : Text} (htext : '\n' ∉ text) :
    sourcePattern.capture? "line".toList text = (digitsAfterSource? text).map some := by
  have hname : "line".toList ∉ (Pattern.named "source".toList
      (.oneOrMore false isNotNewline)).names := by decide
  rw [sourcePattern, Pattern.capture?_followedBy hname, Pattern.ways, List.findSome?_map]
  change ((Pattern.oneOrMore false isNotNewline).ways text).findSome?
    (fun way => numberPattern.capture? "line".toList way.rest) = _
  clear hname
  induction text with
  | nil => rfl
  | cons c rest ih =>
      rw [List.mem_cons, not_or] at htext
      have hc : isNotNewline c = true := bne_iff_ne.2 (Ne.symm htext.1)
      rw [Pattern.findSome?_oneOrMore_lazy _ hc, ih htext.2, capture?_numberPattern htext.2,
        digitsAfterSource?_cons]
      cases digitsAt? rest <;> rfl

theorem digits?_eq (line : Text) :
    digits? line =
      if ['o', 'n', ' '].isPrefixOf (Text.trimStart line) then
        digitsAfterSource? ((Text.trimStart line).drop 3)
      else none := by
  unfold digits?
  split
  · next heq => rw [heq]; rfl
  · next hother =>
      rw [if_neg]
      intro hfront
      obtain ⟨rest, hrest⟩ := List.isPrefixOf_iff_prefix.1 hfront
      exact hother rest hrest.symm

/-- **The reader takes what a leftmost-first match takes** for the digits. -/
theorem capture?_pattern {line : Text} (hline : '\n' ∉ line) :
    pattern.capture? "line".toList line = (digits? line).map some := by
  have hstop : ∀ (way : Pattern.Way) (c : Char) (rest : Text), way.rest = c :: rest →
      Text.isBlank c = true →
      ((Pattern.literal ['o', 'n', ' ']).followedBy sourcePattern).capture? "line".toList
        way.rest = none := by
    intro way c rest hrest hc
    rw [hrest, Pattern.capture?_literal_followedBy, if_neg]
    intro hfront
    obtain ⟨more, hmore⟩ := List.isPrefixOf_iff_prefix.1 hfront
    obtain rfl := (List.cons.inj hmore).1
    exact absurd hc (by decide)
  have hline' : '\n' ∉ (Text.trimStart line).drop 3 := fun hmem =>
    hline ((List.dropWhile_suffix Text.isBlank).subset (List.mem_of_mem_drop hmem))
  rw [pattern, Pattern.capture?_followedBy List.not_mem_nil, Pattern.ways,
    Pattern.findSome?_runs_greedy hstop, Pattern.capture?_literal_followedBy, digits?_eq]
  by_cases hfront : ['o', 'n', ' '].isPrefixOf (Text.trimStart line) = true
  · rw [if_pos hfront]
    exact (if_pos hfront).trans (capture?_sourcePattern hline')
  · rw [if_neg hfront]
    exact if_neg hfront

end Location

end HclEdit
