import HclEdit.Text.Blank

/-!
# Pieces and words

A text is split at separators only, so pieces without separators come back from what is put together
with separators between them. Words are the pieces between blanks that are not empty.
-/

namespace HclEdit.Text

section Pieces

variable {separates : Char → Bool} {piece : Text} (hpiece : ∀ c ∈ piece, separates c = false)
include hpiece

theorem pieces_of_not_separates : pieces separates piece = [piece] := by
  induction piece with
  | nil => rfl
  | cons c rest ih =>
      rw [List.forall_mem_cons] at hpiece
      simp [pieces, hpiece.1, ih hpiece.2]

theorem pieces_append_separator {c : Char} (hc : separates c = true) (rest : Text) :
    pieces separates (piece ++ c :: rest) = piece :: pieces separates rest := by
  induction piece with
  | nil => simp [pieces, hc]
  | cons d front ih =>
      rw [List.forall_mem_cons] at hpiece
      simp [pieces, hpiece.1, ih hpiece.2]

end Pieces

/-! ### Joined texts -/

theorem mem_of_mem_join {separator : Text} {c : Char} {list : List Text}
    (hc : c ∈ join separator list) : c ∈ separator ∨ ∃ piece ∈ list, c ∈ piece := by
  induction list with
  | nil => exact absurd hc List.not_mem_nil
  | cons piece others ih =>
      by_cases hothers : others = []
      · subst hothers
        exact .inr ⟨piece, List.mem_cons_self, hc⟩
      · rw [join_cons hothers, List.mem_append, List.mem_append] at hc
        rcases hc with (hpiece | hseparator) | hrest
        · exact .inr ⟨piece, List.mem_cons_self, hpiece⟩
        · exact .inl hseparator
        · refine (ih hrest).imp_right ?_
          rintro ⟨other, hother, hmem⟩
          exact ⟨other, List.mem_cons_of_mem _ hother, hmem⟩

/-- Joined pieces end as the last of them does. -/
theorem getLast?_join {separator : Text} {list : List Text} (hlist : ∀ piece ∈ list, piece ≠ []) :
    (join separator list).getLast? = list.getLast?.bind List.getLast? := by
  induction list with
  | nil => rfl
  | cons piece others ih =>
      rw [List.forall_mem_cons] at hlist
      by_cases hothers : others = []
      · subst hothers
        rfl
      · have hlast : others.getLast? = some (others.getLast hothers) :=
          List.getLast?_eq_some_getLast hothers
        have hne := hlist.2 _ (List.getLast_mem hothers)
        have hrest := ih hlist.2
        rw [hlast, Option.bind_some, List.getLast?_eq_some_getLast hne] at hrest
        rw [join_cons hothers, List.getLast?_append, hrest, List.getLast?_cons, hlast,
          Option.some_or, Option.getD_some, Option.bind_some, List.getLast?_eq_some_getLast hne]

/-! ### Words -/

def IsWord (word : Text) : Prop :=
  word ≠ [] ∧ ∀ c ∈ word, isBlank c = false

instance (word : Text) : Decidable word.IsWord :=
  inferInstanceAs (Decidable (_ ∧ _))

theorem isWord_of_mem_words {text word : Text} (hword : word ∈ words text) : word.IsWord := by
  obtain ⟨hpiece, hne⟩ := List.mem_filter.1 hword
  refine ⟨?_, fun c hc => not_separates_of_mem_pieces hpiece hc⟩
  rintro rfl
  exact absurd hne nofun

theorem words_of_isWord {word : Text} (hword : word.IsWord) : words word = [word] := by
  rw [words, pieces_of_not_separates hword.2]
  exact List.filter_cons_of_pos (by simpa using hword.1)

theorem words_append_blank {word : Text} (hword : word.IsWord) {c : Char} (hc : isBlank c = true)
    (rest : Text) : words (word ++ c :: rest) = word :: words rest := by
  rw [words, pieces_append_separator hword.2 hc]
  exact List.filter_cons_of_pos (by simpa using hword.1)

/-- **Words come back from a text in which single spaces stand between them.** -/
theorem words_join {list : List Text} (hwords : ∀ word ∈ list, word.IsWord) :
    words (join [' '] list) = list := by
  induction list with
  | nil => rfl
  | cons word others ih =>
      rw [List.forall_mem_cons] at hwords
      by_cases hothers : others = []
      · subst hothers
        exact words_of_isWord hwords.1
      · rw [join_cons hothers, List.append_assoc, List.singleton_append,
          words_append_blank hwords.1 (by decide), ih hwords.2]

theorem words_cons_of_isBlank {c : Char} (hc : isBlank c = true) (rest : Text) :
    words (c :: rest) = words rest := by
  simp [words, pieces, hc]

theorem words_cons_ne_nil {c : Char} (hc : isBlank c = false) (rest : Text) :
    words (c :: rest) ≠ [] := by
  obtain ⟨piece, others, hrest⟩ := List.exists_cons_of_ne_nil (pieces_ne_nil isBlank rest)
  simp [words, pieces, hc, hrest]

/-- Only a blank text has no words. -/
theorem words_eq_nil_iff {text : Text} : words text = [] ↔ isBlankText text = true := by
  induction text with
  | nil => simp [words, pieces, isBlankText]
  | cons c rest ih =>
      cases hc : isBlank c with
      | true => simpa [words_cons_of_isBlank hc, isBlankText, hc] using ih
      | false => simpa [isBlankText, hc] using words_cons_ne_nil hc rest

end HclEdit.Text
