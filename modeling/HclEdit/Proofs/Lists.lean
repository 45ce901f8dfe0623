import Mathlib.Data.List.Forall2

/-!
# Searching, joining and cutting lists

What a search through a list comes to depends on the members alone, each part of a joined list is
part of the whole, and a run of members ends at the first one that fails. Lists that go together
member by member still do so behind such a run.
-/

namespace HclEdit

variable {α β : Type} {list : List α}

theorem findSome?_congr {f g : α → Option β} (hfg : ∀ a ∈ list, f a = g a) :
    list.findSome? f = list.findSome? g := by
  induction list with
  | nil => rfl
  | cons a rest ih =>
      rw [List.forall_mem_cons] at hfg
      rw [List.findSome?_cons, List.findSome?_cons, hfg.1, ih hfg.2]

theorem sublist_flatMap_of_mem (f : α → List β) {a : α} (ha : a ∈ list) :
    (f a).Sublist (list.flatMap f) := by
  rw [List.flatMap_def]
  exact List.sublist_flatten_of_mem (List.mem_map_of_mem ha)

theorem takeWhile_append_cons {p : α → Bool} {front : List α} (hfront : ∀ a ∈ front, p a = true)
    {a : α} (ha : p a = false) (rest : List α) : (front ++ a :: rest).takeWhile p = front := by
  have hstop : ¬ p a = true := by rw [ha]; exact Bool.false_ne_true
  rw [List.takeWhile_append_of_pos hfront, List.takeWhile_cons_of_neg hstop, List.append_nil]

theorem forall₂_dropWhile {R : α → β → Prop} {p : α → Bool} {q : β → Bool} {others : List β}
    (hlists : List.Forall₂ R list others) (hagree : ∀ a b, R a b → p a = q b) :
    List.Forall₂ R (list.dropWhile p) (others.dropWhile q) := by
  induction hlists with
  | nil => exact .nil
  | @cons a b rest more hab hrest ih =>
      rw [List.dropWhile_cons, List.dropWhile_cons, hagree a b hab]
      split
      · exact ih
      · exact .cons hab hrest

end HclEdit
