import HclEdit.Indent.Reindent

/-!
# What counts as leading whitespace

The width of an indentation counts spaces and tabs, a comment is looked for behind spaces and tabs,
and a line is trimmed of every blank character. Behind a padding of spaces the three agree.
-/

namespace HclEdit.Text

theorem isBlank_of_space_or_tab {c : Char} (hc : (c == ' ' || c == '\t') = true) :
    isBlank c = true := by
  rw [Bool.or_eq_true, beq_iff_eq, beq_iff_eq] at hc
  rcases hc with rfl | rfl <;> decide

theorem isBlankText_iff {text : Text} : isBlankText text = true ↔ trimStart text = [] := by
  induction text with
  | nil => simp [isBlankText, trimStart]
  | cons c rest ih =>
      by_cases hc : isBlank c = true
      · have htrim : trimStart (c :: rest) = trimStart rest := List.dropWhile_cons_of_pos hc
        rw [htrim, ← ih]
        simp [isBlankText, hc]
      · simp [isBlankText, trimStart, hc]

theorem isBlank_of_trimStart {c : Char} {text rest : Text} (htrim : trimStart text = c :: rest) :
    isBlank c = false := by
  have hhead := List.head?_dropWhile_not isBlank text
  rw [show text.dropWhile isBlank = c :: rest from htrim] at hhead
  exact hhead

theorem exists_append_trimStart (text : Text) :
    ∃ front, text = front ++ trimStart text ∧ ∀ c ∈ front, isBlank c = true := by
  refine ⟨text.takeWhile isBlank, List.takeWhile_append_dropWhile.symm, ?_⟩
  exact List.all_eq_true.1 List.all_takeWhile

theorem trimStart_append {front : Text} (hfront : ∀ c ∈ front, isBlank c = true) (text : Text) :
    trimStart (front ++ text) = trimStart text :=
  List.dropWhile_append_of_pos hfront

@[simp] theorem trimStart_trimStart (text : Text) :
    trimStart (trimStart text) = trimStart text := by
  obtain ⟨front, htext, hfront⟩ := exists_append_trimStart text
  rw [← trimStart_append hfront, ← htext]

theorem getLast?_trimStart {text : Text} (htext : isBlankText text = false) :
    (trimStart text).getLast? = text.getLast? := by
  obtain ⟨front, happend, -⟩ := exists_append_trimStart text
  have hne : trimStart text ≠ [] := by
    rw [Ne, ← isBlankText_iff, htext]
    exact Bool.false_ne_true
  conv => rhs; rw [happend]
  rw [List.getLast?_append, List.getLast?_eq_some_getLast hne, Option.some_or]

/-! ### Padding with spaces -/

/-- A trimmed text moved to a column. -/
def padded (column : Nat) (text : Text) : Text :=
  List.replicate column ' ' ++ trimStart text

theorem not_space_or_tab_of_trimStart {c : Char} {text rest : Text}
    (htrim : trimStart text = c :: rest) : (c == ' ' || c == '\t') = false := by
  rw [← Bool.not_eq_true]
  intro hc
  have hblank := isBlank_of_trimStart htrim
  rw [isBlank_of_space_or_tab hc] at hblank
  exact absurd hblank nofun

@[simp] theorem trimStart_padded (column : Nat) (text : Text) :
    trimStart (padded column text) = trimStart text := by
  rw [padded, trimStart_append, trimStart_trimStart]
  intro c hc
  rw [List.eq_of_mem_replicate hc]
  decide

@[simp] theorem unindented_padded (column : Nat) (text : Text) :
    unindented (padded column text) = trimStart text := by
  rw [unindented, padded, List.dropWhile_append_of_pos]
  · cases htrim : trimStart text with
    | nil => rfl
    | cons c rest =>
        rw [List.dropWhile_cons_of_neg]
        rw [not_space_or_tab_of_trimStart htrim]
        exact Bool.false_ne_true
  · intro c hc
    rw [List.eq_of_mem_replicate hc]
    decide

@[simp] theorem indentation_padded (column : Nat) (text : Text) :
    indentation (padded column text) = column := by
  have hspaces : ∀ c ∈ List.replicate column ' ', (c == ' ' || c == '\t') = true := by
    intro c hc
    rw [List.eq_of_mem_replicate hc]
    decide
  rw [indentation, padded, List.takeWhile_append_of_pos hspaces, List.length_append,
    List.length_replicate]
  cases htrim : trimStart text with
  | nil => rfl
  | cons c rest =>
      rw [List.takeWhile_cons_of_neg]
      · rfl
      · rw [not_space_or_tab_of_trimStart htrim]
        exact Bool.false_ne_true

theorem mem_of_mem_padded {column : Nat} {text : Text} {c : Char} (hc : c ∈ padded column text)
    (hspace : c ≠ ' ') : c ∈ text := by
  rw [padded, List.mem_append] at hc
  rcases hc with hc | hc
  · exact absurd (List.eq_of_mem_replicate hc) hspace
  · exact List.dropWhile_subset _ hc

theorem getLast?_padded {column : Nat} {text : Text} (htext : isBlankText text = false) :
    (padded column text).getLast? = text.getLast? := by
  have hlast := getLast?_trimStart htext
  have hne : text ≠ [] := by
    rintro rfl
    exact absurd htext nofun
  rw [padded, List.getLast?_append, hlast, List.getLast?_eq_some_getLast hne, Option.some_or]

end HclEdit.Text
