import HclEdit.Text.Utf8

/-!
# The bytes of a text

A text has as many bytes as its offsets count. A byte below 128 stands for the one character with
that code and is never a part of another one, so line feeds and carriage returns can be looked for
byte by byte.
-/

namespace HclEdit.Text

def newline : UInt8 := 0x0A

def carriageReturn : UInt8 := 0x0D

@[simp] theorem encode_nil : encode [] = [] := rfl

@[simp] theorem encode_cons (c : Char) (rest : Text) :
    encode (c :: rest) = String.utf8EncodeChar c ++ encode rest :=
  List.flatMap_cons

@[simp] theorem encode_append (front back : Text) :
    encode (front ++ back) = encode front ++ encode back :=
  List.flatMap_append

@[simp] theorem length_encode (text : Text) : (encode text).length = byteLength text := by
  induction text with
  | nil => rfl
  | cons c rest ih => simp [ih]

/-! ### Bytes of one character -/

theorem toNat_eq_of_mem_utf8EncodeChar {c : Char} {byte : UInt8} (hbyte : byte.toNat < 128)
    (hmem : byte ∈ String.utf8EncodeChar c) : c.toNat = byte.toNat := by
  have hval : c.val.toNat = c.toNat := rfl
  unfold String.utf8EncodeChar at hmem
  dsimp only at hmem
  split at hmem
  · obtain rfl := List.mem_singleton.1 hmem
    simp only [UInt8.toNat_ofNat']
    omega
  -- In the longer forms every byte is 128 or more.
  · exfalso
    have hlast : ∀ n, 128 ≤ (UInt8.ofNat (n % 64 + 128)).toNat := by intro n; simp; omega
    split at hmem
    · have hfirst : 128 ≤ (UInt8.ofNat (c.val.toNat / 64 % 32 + 192)).toNat := by simp; omega
      grind
    · split at hmem
      · have hfirst : 128 ≤ (UInt8.ofNat (c.val.toNat / 4096 % 16 + 224)).toNat := by simp; omega
        grind
      · have hfirst : 128 ≤ (UInt8.ofNat (c.val.toNat / 262144 % 8 + 240)).toNat := by simp; omega
        grind

theorem mem_encode_iff {c : Char} (hc : c.toNat < 128) {text : Text} :
    UInt8.ofNat c.toNat ∈ encode text ↔ c ∈ text := by
  have hbyte : (UInt8.ofNat c.toNat).toNat = c.toNat := by simp; omega
  rw [encode, List.mem_flatMap]
  constructor
  · rintro ⟨d, hd, hmem⟩
    have hcode := toNat_eq_of_mem_utf8EncodeChar (by omega) hmem
    rwa [← Char.toNat_inj.1 (hcode.trans hbyte)]
  · intro hmem
    have hle : c.val.toNat ≤ 127 := Nat.le_of_lt_succ hc
    refine ⟨c, hmem, ?_⟩
    unfold String.utf8EncodeChar
    rw [if_pos hle]
    exact List.mem_singleton_self _

theorem newline_mem_encode {text : Text} : newline ∈ encode text ↔ '\n' ∈ text :=
  mem_encode_iff (c := '\n') (by decide)

theorem getLast?_encode {text : Text} :
    (encode text).getLast? = some carriageReturn ↔ text.getLast? = some '\r' := by
  rcases List.eq_nil_or_concat text with rfl | ⟨front, c, rfl⟩
  · simp
  · have hne : String.utf8EncodeChar c ≠ [] := String.utf8EncodeChar_ne_nil
    have hlast : (encode (front ++ [c])).getLast? = (String.utf8EncodeChar c).getLast? := by
      simp [List.getLast?_append, List.getLast?_eq_some_getLast hne]
    rw [List.concat_eq_append, hlast, List.getLast?_concat, Option.some.injEq]
    constructor
    · intro hreturn
      have hcode := toNat_eq_of_mem_utf8EncodeChar (by decide) (List.mem_of_getLast? hreturn)
      exact Char.toNat_inj.1 hcode
    · rintro rfl
      rfl

/-! ### Where a character starts -/

/-- An offset that cuts no character in two: a byte that begins one is there, or the end. -/
def BetweenCharacters (text : Text) (offset : Nat) : Prop :=
  offset = (encode text).length ∨ ∃ byte, (encode text)[offset]? = some byte ∧ byte.IsUTF8FirstByte

instance (text : Text) (offset : Nat) : Decidable (text.BetweenCharacters offset) :=
  decidable_of_iff
    (offset = (encode text).length ∨ (encode text)[offset]?.any (fun byte => byte.IsUTF8FirstByte))
    (or_congr Iff.rfl (by simp [Option.any_eq_true]))

theorem betweenCharacters_append (front back : Text) :
    (front ++ back).BetweenCharacters (byteLength front) := by
  cases back with
  | nil => exact .inl (by simp)
  | cons c rest =>
      have hpos : 0 < (String.utf8EncodeChar c).length := by simpa using c.utf8Size_pos
      refine .inr ⟨(String.utf8EncodeChar c)[0], ?_,
        UInt8.isUTF8FirstByte_getElem_zero_utf8EncodeChar⟩
      rw [encode_append, List.getElem?_append_right (by simp), length_encode, Nat.sub_self,
        encode_cons, List.getElem?_append_left hpos, List.getElem?_eq_getElem hpos]

theorem exists_append_of_betweenCharacters {text : Text} {offset : Nat}
    (hoffset : text.BetweenCharacters offset) :
    ∃ front back, text = front ++ back ∧ byteLength front = offset := by
  induction text generalizing offset with
  | nil =>
      rcases hoffset with rfl | ⟨byte, hbyte, -⟩
      · exact ⟨[], [], rfl, rfl⟩
      · exact absurd hbyte nofun
  | cons c rest ih =>
      have hlength : (String.utf8EncodeChar c).length = c.utf8Size := String.length_utf8EncodeChar c
      rcases Nat.eq_zero_or_pos offset with rfl | hpos
      · exact ⟨[], c :: rest, rfl, rfl⟩
      rcases Nat.lt_or_ge offset c.utf8Size with hlt | hge
      -- Only the first byte of a character begins one.
      · exfalso
        rcases hoffset with hend | ⟨byte, hbyte, hfirst⟩
        · rw [length_encode, byteLength_cons] at hend
          omega
        · rw [encode_cons, List.getElem?_append_left (by omega),
            List.getElem?_eq_getElem (by omega)] at hbyte
          obtain rfl := Option.some.inj hbyte
          exact Nat.ne_of_gt hpos (UInt8.isUTF8FirstByte_getElem_utf8EncodeChar.1 hfirst)
      · obtain ⟨later, rfl⟩ := Nat.exists_eq_add_of_le hge
        have hrest : BetweenCharacters rest later := by
          rcases hoffset with hend | ⟨byte, hbyte, hfirst⟩
          · rw [length_encode, byteLength_cons] at hend
            exact .inl (by rw [length_encode]; omega)
          · rw [encode_cons, List.getElem?_append_right (by omega), hlength,
              Nat.add_sub_cancel_left] at hbyte
            exact .inr ⟨byte, hbyte, hfirst⟩
        obtain ⟨front, back, rfl, rfl⟩ := ih hrest
        exact ⟨c :: front, back, rfl, rfl⟩

end HclEdit.Text
