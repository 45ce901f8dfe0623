import HclEdit.Text.Utf8

/-!
# Texts are read back from their bytes

A character that is read byte by byte comes back: the first byte says how many more are due, and the
range that it sets for the second one holds every character that is not a surrogate.
-/

namespace HclEdit.Text

namespace Utf8State

theorem run_cons (state : Utf8State) (byte : UInt8) (rest : Bytes) :
    state.run (byte :: rest) =
      (state.step byte.toNat).1 ++ (state.step byte.toNat).2.run rest := by
  cases state <;> rfl

section Within

variable {low high value : Nat} {byte : UInt8} (hlow : low ≤ byte.toNat) (hhigh : byte.toNat ≤ high)
include hlow hhigh

theorem run_within_last (rest : Bytes) :
    (within 1 low high value).run (byte :: rest) =
      some (Char.ofNat (value * 64 + (byte.toNat - 0x80))) :: between.run rest := by
  rw [run_cons, step, if_pos ⟨hlow, hhigh⟩]
  rfl

theorem run_within (due : Nat) (rest : Bytes) :
    (within (due + 2) low high value).run (byte :: rest) =
      (within (due + 1) 0x80 0xBF (value * 64 + (byte.toNat - 0x80))).run rest := by
  rw [run_cons, step, if_pos ⟨hlow, hhigh⟩]
  rfl

end Within

theorem run_between {byte : UInt8} {due low high value : Nat}
    (henter : enter byte.toNat = ([], within due low high value)) (rest : Bytes) :
    between.run (byte :: rest) = (within due low high value).run rest := by
  rw [run_cons, step, henter, List.nil_append]

theorem run_one {v : Nat} (hv : v < 0x80) (rest : Bytes) :
    between.run (UInt8.ofNat v :: rest) = some (Char.ofNat v) :: between.run rest := by
  have hbyte : (UInt8.ofNat v).toNat = v := by simp; omega
  rw [run_cons, step, hbyte, enter, if_pos hv]
  rfl

theorem run_two {v : Nat} (hv : 0x80 ≤ v) (hv' : v < 0x800) (rest : Bytes) :
    between.run (UInt8.ofNat (v / 64 % 32 + 192) :: UInt8.ofNat (v % 64 + 128) :: rest) =
      some (Char.ofNat v) :: between.run rest := by
  have hfirst : (UInt8.ofNat (v / 64 % 32 + 192)).toNat = v / 64 + 192 := by simp; omega
  have hsecond : (UInt8.ofNat (v % 64 + 128)).toNat = v % 64 + 128 := by simp; omega
  have henter : enter (v / 64 + 192) = ([], within 1 0x80 0xBF (v / 64)) := by
    unfold enter
    rw [if_neg (by omega), if_neg (by omega), if_pos (by omega), Nat.add_sub_cancel]
  rw [← hfirst] at henter
  rw [run_between henter, run_within_last (by omega) (by omega), hsecond, Nat.add_sub_cancel]
  rw [Nat.div_add_mod']

theorem enter_three {v : Nat} (hv : 0x800 ≤ v) (hv' : v < 0x10000)
    (hvalid : v < 0xD800 ∨ 0xDFFF < v) :
    ∃ low high, enter (v / 4096 + 224) = ([], within 2 low high (v / 4096)) ∧
      low ≤ v / 64 % 64 + 128 ∧ v / 64 % 64 + 128 ≤ high := by
  unfold enter
  rw [if_neg (by omega), if_neg (by omega), if_neg (by omega)]
  by_cases hzero : v / 4096 = 0
  · rw [if_pos (by omega), hzero]
    exact ⟨_, _, rfl, by omega, by omega⟩
  · rw [if_neg (by omega)]
    by_cases hsurrogates : v / 4096 = 0xD
    · rw [if_pos (by omega), hsurrogates]
      exact ⟨_, _, rfl, by omega, by omega⟩
    · rw [if_neg (by omega), if_pos (by omega), Nat.add_sub_cancel]
      exact ⟨_, _, rfl, by omega, by omega⟩

theorem run_three {v : Nat} (hv : 0x800 ≤ v) (hv' : v < 0x10000)
    (hvalid : v < 0xD800 ∨ 0xDFFF < v) (rest : Bytes) :
    between.run (UInt8.ofNat (v / 4096 % 16 + 224) :: UInt8.ofNat (v / 64 % 64 + 128) ::
        UInt8.ofNat (v % 64 + 128) :: rest) = some (Char.ofNat v) :: between.run rest := by
  have hfirst : (UInt8.ofNat (v / 4096 % 16 + 224)).toNat = v / 4096 + 224 := by simp; omega
  have hsecond : (UInt8.ofNat (v / 64 % 64 + 128)).toNat = v / 64 % 64 + 128 := by simp; omega
  have hthird : (UInt8.ofNat (v % 64 + 128)).toNat = v % 64 + 128 := by simp; omega
  have hvalue : (v / 4096 * 64 + v / 64 % 64) * 64 + v % 64 = v := by omega
  obtain ⟨low, high, henter, hlow, hhigh⟩ := enter_three hv hv' hvalid
  rw [← hfirst] at henter
  rw [run_between henter, run_within (by omega) (by omega), run_within_last (by omega) (by omega),
    hsecond, hthird, Nat.add_sub_cancel, Nat.add_sub_cancel, hvalue]

theorem enter_four {v : Nat} (hv : 0x10000 ≤ v) (hv' : v < 0x110000) :
    ∃ low high, enter (v / 262144 + 240) = ([], within 3 low high (v / 262144)) ∧
      low ≤ v / 4096 % 64 + 128 ∧ v / 4096 % 64 + 128 ≤ high := by
  unfold enter
  rw [if_neg (by omega), if_neg (by omega), if_neg (by omega), if_neg (by omega),
    if_neg (by omega), if_neg (by omega)]
  by_cases hzero : v / 262144 = 0
  · rw [if_pos (by omega), hzero]
    exact ⟨_, _, rfl, by omega, by omega⟩
  · rw [if_neg (by omega)]
    by_cases hlast : v / 262144 = 4
    · rw [if_neg (by omega), if_pos (by omega), hlast]
      exact ⟨_, _, rfl, by omega, by omega⟩
    · rw [if_pos (by omega), Nat.add_sub_cancel]
      exact ⟨_, _, rfl, by omega, by omega⟩

theorem run_four {v : Nat} (hv : 0x10000 ≤ v) (hv' : v < 0x110000) (rest : Bytes) :
    between.run (UInt8.ofNat (v / 262144 % 8 + 240) :: UInt8.ofNat (v / 4096 % 64 + 128) ::
        UInt8.ofNat (v / 64 % 64 + 128) :: UInt8.ofNat (v % 64 + 128) :: rest) =
      some (Char.ofNat v) :: between.run rest := by
  have hfirst : (UInt8.ofNat (v / 262144 % 8 + 240)).toNat = v / 262144 + 240 := by simp; omega
  have hsecond : (UInt8.ofNat (v / 4096 % 64 + 128)).toNat = v / 4096 % 64 + 128 := by simp; omega
  have hthird : (UInt8.ofNat (v / 64 % 64 + 128)).toNat = v / 64 % 64 + 128 := by simp; omega
  have hfourth : (UInt8.ofNat (v % 64 + 128)).toNat = v % 64 + 128 := by simp; omega
  have hvalue : ((v / 262144 * 64 + v / 4096 % 64) * 64 + v / 64 % 64) * 64 + v % 64 = v := by
    omega
  obtain ⟨low, high, henter, hlow, hhigh⟩ := enter_four hv hv'
  rw [← hfirst] at henter
  rw [run_between henter, run_within (by omega) (by omega), run_within (by omega) (by omega),
    run_within_last (by omega) (by omega), hsecond, hthird, hfourth, Nat.add_sub_cancel,
    Nat.add_sub_cancel, Nat.add_sub_cancel, hvalue]

theorem run_utf8EncodeChar (c : Char) (rest : Bytes) :
    between.run (String.utf8EncodeChar c ++ rest) = some c :: between.run rest := by
  have hvalid : c.val.toNat < 0xD800 ∨ 0xDFFF < c.val.toNat ∧ c.val.toNat < 0x110000 := c.valid
  have hc : Char.ofNat c.val.toNat = c := Char.ofNat_toNat c
  conv => rhs; rw [← hc]
  unfold String.utf8EncodeChar
  dsimp only
  split
  · exact run_one (by omega) rest
  · split
    · exact run_two (by omega) (by omega) rest
    · split
      · exact run_three (by omega) (by omega) (by omega) rest
      · exact run_four (by omega) (by omega) rest

end Utf8State

/-- **Reading the bytes of a text** gives the text back. -/
theorem decodeLossy_encode (text : Text) : decodeLossy (encode text) = text := by
  have hread : readUtf8 (encode text) = text.map some := by
    induction text with
    | nil => rfl
    | cons c rest ih =>
        rw [encode, List.flatMap_cons, readUtf8, Utf8State.run_utf8EncodeChar, List.map_cons]
        exact congrArg (some c :: ·) ih
  rw [decodeLossy, hread, List.map_map]
  exact List.map_id text

end HclEdit.Text
