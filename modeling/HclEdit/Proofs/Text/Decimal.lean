import HclEdit.Proofs.Lists
import HclEdit.Text.Digit

/-!
# Decimal numbers are read back

The decimal form of a number consists of ASCII digits, at least one, and stands for that number.
-/

namespace HclEdit.Text

theorem decimal_ne_nil (n : Nat) : decimal n ≠ [] :=
  Nat.toDigits_ne_nil

theorem isDigit_of_mem_decimal {n : Nat} {c : Char} (hc : c ∈ decimal n) : c.isDigit = true :=
  Nat.isDigit_of_mem_toDigits (by decide) (by decide) hc

theorem isDecimalDigit_of_isDigit {c : Char} (hc : c.isDigit = true) :
    isDecimalDigit c = true := by
  obtain ⟨hlow, hhigh⟩ := Char.isDigit_iff_toNat.1 hc
  apply List.any_eq_true.2
  refine ⟨0x30, List.mem_cons_self, ?_⟩
  rw [Bool.and_eq_true, decide_eq_true_eq, decide_eq_true_eq]
  exact ⟨hlow, Nat.lt_succ_of_le hhigh⟩

theorem isDecimalDigit_of_mem_decimal (n : Nat) :
    ∀ c ∈ decimal n, isDecimalDigit c = true := by
  intro c hc
  have hdigit : c.isDigit = true := isDigit_of_mem_decimal hc
  exact isDecimalDigit_of_isDigit hdigit

theorem digitValue?_of_isDigit {c : Char} (hc : c.isDigit = true) :
    digitValue? c = some (c.toNat - '0'.toNat) := by
  have hrange : '0' ≤ c ∧ c ≤ '9' := by
    rw [Char.isDigit, Bool.and_eq_true, decide_eq_true_eq, decide_eq_true_eq] at hc
    exact hc
  rw [digitValue?, if_pos hrange]

theorem foldl_digits {text : Text} (htext : ∀ c ∈ text, c.isDigit = true) (total : Nat) :
    text.foldl (fun total? c => do
      let total ← total?
      let digit ← digitValue? c
      some (total * 10 + digit)) (some total) = some (Nat.ofDigitChars 10 text total) := by
  induction text generalizing total with
  | nil => rfl
  | cons c rest ih =>
      rw [List.forall_mem_cons] at htext
      rw [List.foldl_cons, Nat.ofDigitChars_cons, ← ih htext.2, Nat.mul_comm 10 total]
      simp [digitValue?_of_isDigit htext.1]

theorem natural?_of_isDigit {text : Text} (hne : text ≠ [])
    (htext : ∀ c ∈ text, c.isDigit = true) :
    natural? text = some (Nat.ofDigitChars 10 text 0) := by
  have hempty : text.isEmpty = false := List.isEmpty_eq_false_iff.2 hne
  rw [natural?, hempty, if_neg Bool.false_ne_true]
  exact foldl_digits htext 0

theorem isDigit_of_digitValue? {c : Char} {value : Nat} (hvalue : digitValue? c = some value) :
    c.isDigit = true := by
  unfold digitValue? at hvalue
  split at hvalue
  · next hrange =>
      rw [Char.isDigit, Bool.and_eq_true, decide_eq_true_eq, decide_eq_true_eq]
      exact hrange
  · exact absurd hvalue nofun

/-- One more digit behind those read so far. -/
def addDigit? (total? : Option Nat) (c : Char) : Option Nat := do
  let total ← total?
  let digit ← digitValue? c
  some (total * 10 + digit)

theorem foldl_addDigit?_none (text : Text) : text.foldl addDigit? none = none := by
  induction text with
  | nil => rfl
  | cons c rest ih => exact ih

theorem isDigit_of_foldl_addDigit? {text : Text} {total n : Nat}
    (htext : text.foldl addDigit? (some total) = some n) : ∀ c ∈ text, c.isDigit = true := by
  induction text generalizing total with
  | nil => nofun
  | cons c rest ih =>
      rw [List.foldl_cons] at htext
      cases hvalue : digitValue? c with
      | none =>
          have hnone : addDigit? (some total) c = none := by simp [addDigit?, hvalue]
          rw [hnone, foldl_addDigit?_none] at htext
          exact absurd htext nofun
      | some value =>
          have hsome : addDigit? (some total) c = some (total * 10 + value) := by
            simp [addDigit?, hvalue]
          rw [hsome] at htext
          exact List.forall_mem_cons.2 ⟨isDigit_of_digitValue? hvalue, ih htext⟩

theorem isDigit_of_natural? {text : Text} {n : Nat} (hnatural : natural? text = some n) :
    ∀ c ∈ text, c.isDigit = true := by
  unfold natural? at hnatural
  split at hnatural
  · exact absurd hnatural nofun
  · exact isDigit_of_foldl_addDigit? hnatural

/-- A text stands for a number when it consists of ASCII digits, at least one. -/
theorem natural?_eq_some_iff {text : Text} {n : Nat} :
    natural? text = some n ↔
      text ≠ [] ∧ (∀ c ∈ text, c.isDigit = true) ∧ Nat.ofDigitChars 10 text 0 = n := by
  constructor
  · intro hnatural
    have hne : text ≠ [] := by
      rintro rfl
      exact absurd hnatural nofun
    have hdigits := isDigit_of_natural? hnatural
    exact ⟨hne, hdigits, Option.some.inj ((natural?_of_isDigit hne hdigits).symm.trans hnatural)⟩
  · rintro ⟨hne, hdigits, rfl⟩
    exact natural?_of_isDigit hne hdigits

/-- **A number is read back from its decimal form.** -/
theorem natural?_decimal (n : Nat) : natural? (decimal n) = some n := by
  rw [natural?_of_isDigit (decimal_ne_nil n) fun _ => isDigit_of_mem_decimal]
  exact congrArg some (Nat.ofDigitChars_toDigits (by decide) (by decide))

theorem decimal_injective {m n : Nat} (hdecimal : decimal m = decimal n) : m = n := by
  have hread := natural?_decimal m
  rw [hdecimal, natural?_decimal] at hread
  exact (Option.some.inj hread).symm

theorem takeWhile_reverse_append_decimal (front : Text) (n : Nat) :
    (front ++ ' ' :: decimal n).reverse.takeWhile Char.isDigit = (decimal n).reverse := by
  rw [List.reverse_append, List.reverse_cons, List.append_assoc, List.singleton_append]
  exact takeWhile_append_cons (fun c hc => isDigit_of_mem_decimal (List.mem_reverse.1 hc)) rfl _

/-- A number at the end is told from the text in front of it by the space between them. -/
theorem eq_of_append_decimal {front other : Text} {m n : Nat}
    (happend : front ++ ' ' :: decimal m = other ++ ' ' :: decimal n) : front = other ∧ m = n := by
  have hreverse : (decimal m).reverse = (decimal n).reverse := by
    rw [← takeWhile_reverse_append_decimal front m, happend,
      takeWhile_reverse_append_decimal other n]
  obtain rfl := decimal_injective (List.reverse_inj.1 hreverse)
  exact ⟨List.append_cancel_right happend, rfl⟩

end HclEdit.Text
