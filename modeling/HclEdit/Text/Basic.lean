/-!
Texts as lists of characters, with offsets that count the bytes of their UTF-8 form. A cut that
would fall inside a character fails, so a slice is either whole characters or nothing.
-/

namespace HclEdit

abbrev Text := List Char

namespace Text

def byteLength : Text → Nat
  | [] => 0
  | c :: rest => c.utf8Size + byteLength rest

@[simp] theorem byteLength_nil : byteLength [] = 0 := rfl

@[simp] theorem byteLength_cons (c : Char) (rest : Text) :
    byteLength (c :: rest) = c.utf8Size + byteLength rest := rfl

@[simp] theorem byteLength_append (front back : Text) :
    byteLength (front ++ back) = byteLength front + byteLength back := by
  induction front with
  | nil => simp
  | cons c rest ih => simp [ih, Nat.add_assoc]

/-- Cuts a text after the given number of bytes; fails inside a character and past the end. -/
def cut? : Nat → Text → Option (Text × Text)
  | 0, text => some ([], text)
  | _ + 1, [] => none
  | offset + 1, c :: rest =>
      if c.utf8Size ≤ offset + 1 then
        (cut? (offset + 1 - c.utf8Size) rest).map fun (front, back) => (c :: front, back)
      else
        none

/-- A text can be cut in one way at most: the front part has the length asked for. -/
theorem cut?_eq_some_iff {text front back : Text} {offset : Nat} :
    text.cut? offset = some (front, back) ↔ text = front ++ back ∧ byteLength front = offset := by
  fun_induction cut? offset text generalizing front with
  | case1 text =>
    cases front with
    | nil => simp
    | cons c rest =>
      have := c.utf8Size_pos
      simp
      omega
  | case2 offset => cases front <;> simp
  | case3 offset c rest hc ih =>
    cases front with
    | nil => simp
    | cons d front =>
      simp [ih]
      constructor
      · rintro ⟨⟨hrest, hlength⟩, rfl⟩
        exact ⟨⟨rfl, hrest⟩, by omega⟩
      · rintro ⟨⟨rfl, hrest⟩, hlength⟩
        exact ⟨⟨hrest, by omega⟩, rfl⟩
  | case4 offset c rest hc =>
    cases front with
    | nil => simp
    | cons d front =>
      simp
      rintro rfl _
      omega

def isBoundary (text : Text) (offset : Nat) : Bool :=
  (text.cut? offset).isSome

def slice? (text : Text) (start stop : Nat) : Option Text := do
  if start ≤ stop then
    let (_, back) ← text.cut? start
    let (middle, _) ← back.cut? (stop - start)
    some middle
  else
    none

/-- The characters between two byte offsets, or nothing when either offset is not a boundary. -/
def slice (text : Text) (start stop : Nat) : Text :=
  (text.slice? start stop).getD []

/-- The maximal runs between separators: one more than there are separators, empty runs kept. -/
def pieces (separates : Char → Bool) : Text → List Text
  | [] => [[]]
  | c :: rest =>
      if separates c then
        [] :: pieces separates rest
      else
        match pieces separates rest with
        | [] => [[c]]
        | piece :: others => (c :: piece) :: others

theorem pieces_ne_nil (separates : Char → Bool) (text : Text) : pieces separates text ≠ [] := by
  fun_induction pieces separates text <;> simp

/-- No piece holds a separator. -/
theorem not_separates_of_mem_pieces {separates : Char → Bool} {text piece : Text} {c : Char}
    (hpiece : piece ∈ pieces separates text) (hc : c ∈ piece) : separates c = false := by
  fun_induction pieces separates text generalizing piece with
  | case1 => simp_all
  | case2 => grind
  | case3 => grind
  | case4 => grind

def join (separator : Text) : List Text → Text
  | [] => []
  | [piece] => piece
  | piece :: others => piece ++ separator ++ join separator others

theorem join_cons {separator piece : Text} {others : List Text} (hothers : others ≠ []) :
    join separator (piece :: others) = piece ++ separator ++ join separator others := by
  cases others with
  | nil => exact absurd rfl hothers
  | cons => rfl

/-- Nothing is lost between the pieces but the separators. -/
theorem join_pieces (c : Char) (text : Text) : join [c] (text.pieces (· == c)) = text := by
  induction text with
  | nil => rfl
  | cons d rest ih =>
    have hrest := pieces_ne_nil (· == c) rest
    by_cases hd : d = c
    · simp [pieces, hd, join_cons hrest, ih]
    · obtain ⟨piece, others, heq⟩ := List.exists_cons_of_ne_nil hrest
      have hcons : pieces (· == c) (d :: rest) = (d :: piece) :: others := by
        simp [pieces, hd, heq]
      rw [hcons]
      rw [heq] at ih
      cases others with
      | nil => simpa [join] using ih
      | cons => simpa [join] using ih

def decimal (n : Nat) : Text :=
  Nat.toDigits 10 n

def digitValue? (c : Char) : Option Nat :=
  if '0' ≤ c ∧ c ≤ '9' then some (c.toNat - '0'.toNat) else none

/-- The value of a text made of one or more ASCII digits, leading zeros allowed. -/
def natural? (text : Text) : Option Nat :=
  if text.isEmpty then
    none
  else
    text.foldl (fun total? c => do
      let total ← total?
      let digit ← digitValue? c
      some (total * 10 + digit)) (some 0)

end Text

end HclEdit
