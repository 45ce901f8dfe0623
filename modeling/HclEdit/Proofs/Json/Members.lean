import HclEdit.Json.Fields
import HclEdit.Json.Reader

/-!
# Members and items

What is looked up in an object stands among its members, and a value is sound if its parts are.
-/

namespace HclEdit.Json

theorem valuesOf_cons (key : String) (member : String × Json) (rest : List (String × Json)) :
    valuesOf key (member :: rest) =
      if member.1 == key then member.2 :: valuesOf key rest else valuesOf key rest := by
  unfold valuesOf
  rw [List.filter_cons]
  split <;> rfl

theorem field?_of_nil {key : String} {members : List (String × Json)}
    (hvalues : valuesOf key members = []) : field? key members = some none := by
  rw [field?, hvalues]

theorem field?_of_singleton {key : String} {members : List (String × Json)} {value : Json}
    (hvalues : valuesOf key members = [value]) : field? key members = some (some value) := by
  rw [field?, hvalues]

theorem areSound_iff {levels : Nat} {items : List Json} :
    areSound levels items = true ↔ ∀ item ∈ items, item.isSound levels = true := by
  induction items with
  | nil => simp [areSound]
  | cons item rest ih => simp [areSound, ih]

theorem areSoundMembers_iff {levels : Nat} {members : List (String × Json)} :
    areSoundMembers levels members = true ↔
      ∀ member ∈ members, member.2.isSound levels = true := by
  induction members with
  | nil => simp [areSoundMembers]
  | cons member rest ih => simp [areSoundMembers, ih]

theorem exists_of_mem_valuesOf {key : String} {members : List (String × Json)} {value : Json}
    (hvalue : value ∈ valuesOf key members) : (key, value) ∈ members := by
  obtain ⟨member, hmember, rfl⟩ := List.mem_map.1 hvalue
  rw [List.mem_filter, beq_iff_eq] at hmember
  rw [← hmember.2]
  exact hmember.1

theorem mem_valuesOf_of_field? {key : String} {members : List (String × Json)} {value : Json}
    (hfield : field? key members = some (some value)) : value ∈ valuesOf key members := by
  unfold field? at hfield
  split at hfield
  · cases hfield
  · next found hvalues =>
      cases hfield
      rw [hvalues]
      exact List.mem_cons_self
  · cases hfield

end HclEdit.Json
