import HclEdit.Problem.Location
import HclEdit.Proofs.Text.Trim

/-!
# Where a location line has its number

Digits that a tail follows are read in full, and a source name without a space is passed over whole.
-/

namespace HclEdit.Location

theorem isDecimalDigit_of_isTail {c : Char} {rest : Text} (htail : isTail (c :: rest) = true) :
    Text.isDecimalDigit c = false := by
  unfold isTail at htail
  split at htail
  · next heq =>
      obtain ⟨rfl, -⟩ := List.cons.inj heq
      decide
  · next heq =>
      obtain ⟨rfl, -⟩ := List.cons.inj heq
      decide
  · exact absurd htail Bool.false_ne_true

theorem takeWhile_isDecimalDigit {tail : Text} (htail : isTail tail = true) :
    tail.takeWhile Text.isDecimalDigit = [] ∧ tail.dropWhile Text.isDecimalDigit = tail := by
  cases tail with
  | nil => exact ⟨rfl, rfl⟩
  | cons c rest =>
      have hc : ¬ Text.isDecimalDigit c = true := by
        rw [isDecimalDigit_of_isTail htail]
        exact Bool.false_ne_true
      exact ⟨List.takeWhile_cons_of_neg hc, List.dropWhile_cons_of_neg hc⟩

/-- The line number and what follows it. -/
def numbered (digits tail : Text) : Text :=
  ' ' :: 'l' :: 'i' :: 'n' :: 'e' :: ' ' :: (digits ++ tail)

theorem digitsAt?_numbered {digits tail : Text} (hne : digits ≠ [])
    (hdigits : ∀ c ∈ digits, Text.isDecimalDigit c = true) (htail : isTail tail = true) :
    digitsAt? (numbered digits tail) = some digits := by
  obtain ⟨htake, hdrop⟩ := takeWhile_isDecimalDigit htail
  have hempty : digits.isEmpty = false := List.isEmpty_eq_false_iff.2 hne
  simp only [numbered, digitsAt?]
  rw [List.takeWhile_append_of_pos hdigits, List.dropWhile_append_of_pos hdigits, htake, hdrop,
    List.append_nil, hempty, htail]
  rfl

theorem digitsAt?_cons_of_ne {c : Char} (hc : c ≠ ' ') (rest : Text) :
    digitsAt? (c :: rest) = none := by
  unfold digitsAt?
  split
  · next heq => exact absurd (List.cons.inj heq).1 hc
  · rfl

theorem digitsAfterSource?_append {source rest digits : Text} (hne : source ≠ [])
    (hspace : ' ' ∉ source) (hrest : digitsAt? rest = some digits) :
    digitsAfterSource? (source ++ rest) = some digits := by
  induction source with
  | nil => exact absurd rfl hne
  | cons c more ih =>
      rw [List.mem_cons, not_or] at hspace
      rw [List.cons_append, digitsAfterSource?]
      cases more with
      | nil => rw [List.nil_append, hrest]
      | cons d others =>
          have hd : d ≠ ' ' := fun heq => hspace.2 (heq ▸ List.mem_cons_self)
          rw [List.cons_append, digitsAt?_cons_of_ne hd]
          exact ih nofun hspace.2

theorem isTail_colon : isTail [':'] = true := rfl

theorem isTail_scope (scope : Text) : isTail (',' :: ' ' :: (scope ++ [':'])) = true := by
  rw [isTail, Text.trimEnd_concat (by decide), List.getLast?_concat, beq_self_eq_true]

end HclEdit.Location
