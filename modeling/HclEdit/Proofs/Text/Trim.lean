import HclEdit.Proofs.Text.Indentation

/-!
# Trimmed texts

Trimming leaves nothing of a blank text alone. A trimmed text begins and ends with characters that
are not blank.
-/

namespace HclEdit.Text

theorem trimEnd_eq_nil_iff {text : Text} : trimEnd text = [] ↔ isBlankText text = true := by
  unfold trimEnd
  rw [List.reverse_eq_nil_iff, ← trimStart, ← isBlankText_iff]
  unfold isBlankText
  rw [List.all_reverse]

theorem isBlankText_trimStart (text : Text) :
    isBlankText (trimStart text) = isBlankText text := by
  rw [Bool.eq_iff_iff, isBlankText_iff, isBlankText_iff, trimStart_trimStart]

theorem trim_eq_nil_iff {text : Text} : trim text = [] ↔ isBlankText text = true := by
  rw [trim, trimEnd_eq_nil_iff, isBlankText_trimStart]

theorem exists_append_trimEnd (text : Text) :
    ∃ back, text = trimEnd text ++ back ∧ ∀ c ∈ back, isBlank c = true := by
  obtain ⟨front, hreverse, hfront⟩ := exists_append_trimStart text.reverse
  refine ⟨front.reverse, ?_, fun c hc => hfront c (List.mem_reverse.1 hc)⟩
  calc text = text.reverse.reverse := text.reverse_reverse.symm
    _ = (front ++ trimStart text.reverse).reverse := congrArg List.reverse hreverse
    _ = trimEnd text ++ front.reverse := List.reverse_append

theorem trimEnd_append {back : Text} (hback : ∀ c ∈ back, isBlank c = true) (text : Text) :
    trimEnd (text ++ back) = trimEnd text := by
  have hreverse : ∀ c ∈ back.reverse, isBlank c = true :=
    fun c hc => hback c (List.mem_reverse.1 hc)
  rw [trimEnd, List.reverse_append, List.dropWhile_append_of_pos hreverse, trimEnd]

theorem trimEnd_concat {c : Char} (hc : isBlank c = false) (text : Text) :
    trimEnd (text ++ [c]) = text ++ [c] := by
  have hdrop : (c :: text.reverse).dropWhile isBlank = c :: text.reverse :=
    List.dropWhile_cons_of_neg (by rw [hc]; exact Bool.false_ne_true)
  rw [trimEnd, List.reverse_append, List.reverse_singleton, List.singleton_append, hdrop,
    List.reverse_cons, List.reverse_reverse]

theorem length_trimEnd_le (text : Text) : (trimEnd text).length ≤ text.length := by
  have hlength := (List.dropWhile_suffix (l := text.reverse) isBlank).length_le
  simpa [trimEnd] using hlength

theorem length_trim_le (text : Text) : (trim text).length ≤ text.length :=
  Nat.le_trans (length_trimEnd_le _) (List.dropWhile_suffix isBlank).length_le

theorem mem_trimStart {c : Char} {text : Text} (hblank : isBlank c = false) (hc : c ∈ text) :
    c ∈ trimStart text := by
  obtain ⟨front, htext, hfront⟩ := exists_append_trimStart text
  rw [htext, List.mem_append] at hc
  refine hc.resolve_left fun hmem => ?_
  rw [hfront c hmem] at hblank
  exact absurd hblank nofun

theorem mem_trim {c : Char} {text : Text} (hblank : isBlank c = false) (hc : c ∈ text) :
    c ∈ trim text := by
  have hreverse : c ∈ trimStart (trimStart text).reverse :=
    mem_trimStart hblank (List.mem_reverse.2 (mem_trimStart hblank hc))
  exact List.mem_reverse.2 hreverse

theorem trim_subset (text : Text) : trim text ⊆ text := by
  intro c hc
  have hstart : c ∈ trimStart text :=
    List.mem_reverse.1 ((List.dropWhile_suffix isBlank).subset (List.mem_reverse.1 hc))
  exact (List.dropWhile_suffix isBlank).subset hstart

theorem trimEnd_trimEnd (text : Text) : trimEnd (trimEnd text) = trimEnd text := by
  obtain ⟨back, htext, hback⟩ := exists_append_trimEnd text
  calc trimEnd (trimEnd text)
      = trimEnd (trimEnd text ++ back) := (trimEnd_append hback _).symm
    _ = trimEnd text := congrArg trimEnd htext.symm

def IsTrimmed (text : Text) : Prop :=
  trim text = text

instance (text : Text) : Decidable text.IsTrimmed :=
  inferInstanceAs (Decidable (trim text = text))

theorem isTrimmed_trim (text : Text) : (trim text).IsTrimmed := by
  have hstart : trimStart (trim text) = trim text := by
    cases htrim : trim text with
    | nil => rfl
    | cons c rest =>
        obtain ⟨back, hback, -⟩ := exists_append_trimEnd (trimStart text)
        rw [← trim, htrim] at hback
        exact List.dropWhile_cons_of_neg (by simp [isBlank_of_trimStart hback])
  rw [IsTrimmed, trim, hstart, trim, trimEnd_trimEnd]

theorem isTrimmed_of_not_isBlank {text : Text} (htext : ∀ c ∈ text, isBlank c = false) :
    text.IsTrimmed := by
  have hstart : ∀ {other : Text}, (∀ c ∈ other, isBlank c = false) → trimStart other = other := by
    intro other hother
    cases other with
    | nil => rfl
    | cons c rest =>
        exact List.dropWhile_cons_of_neg (by rw [hother c List.mem_cons_self]; nofun)
  have hreverse : trimStart text.reverse = text.reverse :=
    hstart fun c hc => htext c (List.mem_reverse.1 hc)
  rw [IsTrimmed, trim, hstart htext]
  exact (congrArg List.reverse hreverse).trans text.reverse_reverse

namespace IsTrimmed

variable {text : Text} (htrimmed : text.IsTrimmed)
include htrimmed

theorem trimStart_eq : trimStart text = text := by
  have hsuffix : trimStart text <:+ text := List.dropWhile_suffix isBlank
  apply hsuffix.eq_of_length
  apply Nat.le_antisymm hsuffix.length_le
  calc text.length
      = (trim text).length := congrArg List.length htrimmed.symm
    _ ≤ (trimStart text).length := length_trimEnd_le _

theorem isBlank_head {c : Char} {rest : Text} (htext : text = c :: rest) : isBlank c = false :=
  isBlank_of_trimStart (htrimmed.trimStart_eq.trans htext)

theorem isBlank_getLast {c : Char} (hlast : text.getLast? = some c) : isBlank c = false := by
  have htrimEnd : trimEnd text = text := by
    have htrim : trimEnd (trimStart text) = text := htrimmed
    rwa [htrimmed.trimStart_eq] at htrim
  have hreverse : trimStart text.reverse = text.reverse := by
    rw [← List.reverse_inj, List.reverse_reverse]
    exact htrimEnd
  obtain ⟨front, rfl⟩ := List.getLast?_eq_some_iff.1 hlast
  have hcons : trimStart (front ++ [c]).reverse = c :: front.reverse := by
    rw [hreverse, List.reverse_append]
    rfl
  exact isBlank_of_trimStart hcons

end IsTrimmed

end HclEdit.Text
