import HclEdit.Json.Printer
import HclEdit.Json.Reader
import HclEdit.Proofs.Text.Decimal
import Mathlib.Data.List.TakeDrop

/-!
# Printed JSON is read back

A value that has a text of its own is what the reader finds in that text. Strings come back
character by character, whatever they hold, and integers as long as they fit in 64 bits.
-/

namespace HclEdit.Json

/-! ### Strings -/

theorem codeUnit?_hexDigit : ∀ unit < 0x20,
    codeUnit? '0' '0' (hexDigit (unit / 16)) (hexDigit (unit % 16)) = some unit := by
  decide

theorem escape_cases (c : Char) :
    (∃ letter, escape c = ['\\', letter] ∧ escaped? letter = some c) ∨
      c.toNat < 0x20 ∧
        escape c = ['\\', 'u', '0', '0', hexDigit (c.toNat / 16), hexDigit (c.toNat % 16)] ∨
      c ≠ '"' ∧ c ≠ '\\' ∧ 0x20 ≤ c.toNat ∧ escape c = [c] := by
  by_cases hnamed : c ∈ ['"', '\\', '\x08', '\x0C', '\n', '\r', '\t']
  · simp only [List.mem_cons, List.not_mem_nil, or_false] at hnamed
    rcases hnamed with rfl | rfl | rfl | rfl | rfl | rfl | rfl <;> exact .inl ⟨_, rfl, rfl⟩
  · simp only [List.mem_cons, List.not_mem_nil, or_false, not_or] at hnamed
    by_cases hcontrol : c.toNat < 0x20
    · exact .inr (.inl ⟨hcontrol, by simp [escape, hnamed, hcontrol]⟩)
    · have hplain : escape c = [c] := by simp [escape, hnamed, hcontrol]
      exact .inr (.inr ⟨hnamed.1, hnamed.2.1, Nat.le_of_not_lt hcontrol, hplain⟩)

/-- A text that begins with the escape for a code unit, which may go with one in front of it. -/
def BeginsUnit (text : Text) : Prop :=
  ∃ a b c d rest, text = '\\' :: 'u' :: a :: b :: c :: d :: rest

theorem readString_unit_eq_none {a b c d : Char} (hunit : codeUnit? a b c d = none) (rest : Text) :
    readString ('\\' :: 'u' :: a :: b :: c :: d :: rest) = none := by
  by_cases hnext : BeginsUnit rest
  · obtain ⟨e, f, g, h, after, rfl⟩ := hnext
    rw [readString, hunit]
    rfl
  · rw [readString, hunit]
    · rfl
    · exact fun e f g h after hrest => hnext ⟨e, f, g, h, after, hrest⟩

section Read

variable {rest left : Text} {read : List (Option Char)}
  (hrest : readString rest = some (read, left))
include hrest

theorem readString_unit {a b c d : Char} {unit : Nat} (hunit : codeUnit? a b c d = some unit)
    (hhigh : isHighSurrogate unit = false) :
    readString ('\\' :: 'u' :: a :: b :: c :: d :: rest) =
      some (Text.scalar? unit :: read, left) := by
  by_cases hnext : BeginsUnit rest
  · obtain ⟨e, f, g, h, after, rfl⟩ := hnext
    cases hsecond : codeUnit? e f g h with
    | none =>
        rw [readString_unit_eq_none hsecond] at hrest
        cases hrest
    | some second =>
        rw [readString, hunit, hsecond]
        simp [hhigh, hrest]
  · rw [readString, hunit]
    · simp [hrest]
    · exact fun e f g h after hrest => hnext ⟨e, f, g, h, after, hrest⟩

theorem readString_escaped {c value : Char} (hc : escaped? c = some value) :
    readString ('\\' :: c :: rest) = some (some value :: read, left) := by
  have hu : c ≠ 'u' := by
    rintro rfl
    simp [escaped?] at hc
  rw [readString]
  · simp [hc, hrest]
  · exact fun _ _ _ _ _ _ _ _ _ h => absurd h hu
  · exact fun _ _ _ _ _ h => absurd h hu

theorem readString_plain {c : Char} (hquote : c ≠ '"') (hslash : c ≠ '\\')
    (hcontrol : 0x20 ≤ c.toNat) : readString (c :: rest) = some (some c :: read, left) := by
  have hlow : ¬ c.toNat < 0x20 := Nat.not_lt_of_le hcontrol
  rw [readString]
  · simp [hlow, hslash, hrest]
  · exact hquote
  · exact fun _ _ _ _ _ _ _ _ _ h => absurd h hslash
  · exact fun _ _ _ _ _ h => absurd h hslash
  · exact fun _ _ h => absurd h hslash

theorem readString_escape (c : Char) :
    readString (escape c ++ rest) = some (some c :: read, left) := by
  rcases escape_cases c with ⟨letter, hescape, hletter⟩ | ⟨hcontrol, hescape⟩ |
      ⟨hquote, hslash, hcontrol, hescape⟩
  · rw [hescape]
    exact readString_escaped hrest hletter
  · have hhigh : isHighSurrogate c.toNat = false := by
      rw [isHighSurrogate, Bool.and_eq_false_iff]
      exact .inl (decide_eq_false (by omega))
    have hscalar : Text.scalar? c.toNat = some c := by
      rw [Text.scalar?, if_pos (.inl (by omega)), Char.ofNat_toNat]
    have hunit := readString_unit hrest (codeUnit?_hexDigit c.toNat hcontrol) hhigh
    rw [hscalar] at hunit
    rw [hescape]
    exact hunit
  · rw [hescape]
    exact readString_plain hrest hquote hslash hcontrol

end Read

theorem readString_quoted (text rest : Text) :
    readString (text.flatMap escape ++ '"' :: rest) = some (text.map some, rest) := by
  induction text with
  | nil => rw [List.flatMap_nil, List.nil_append, readString]; rfl
  | cons c text ih =>
      rw [List.flatMap_cons, List.append_assoc]
      exact readString_escape ih c

theorem mapM_id_map_some (text : Text) : (text.map some).mapM id = some text := by
  induction text with
  | nil => rfl
  | cons c text ih => simp [ih]

theorem ofCharacters_toList (value : String) :
    ofCharacters (value.toList.map some) = .string value := by
  rw [ofCharacters, mapM_id_map_some]
  exact congrArg Json.string value.ofList_toList

/-! ### Integers -/

/-- What may follow a number. -/
def EndsNumber (rest : Text) : Prop :=
  ∀ c ∈ rest.head?, Text.isDigit c = false ∧ c ≠ '.' ∧ c ≠ 'e' ∧ c ≠ 'E'

theorem endsNumber_nil : EndsNumber [] := by
  intro c hc
  cases hc

theorem isDigit_of_mem_decimal {n : Nat} {c : Char} (hc : c ∈ Text.decimal n) :
    Text.isDigit c = true := by
  have hdigit := Text.isDigit_of_mem_decimal hc
  rw [Char.isDigit] at hdigit
  exact hdigit

theorem takeDigits_of_endsNumber {rest : Text} (hrest : EndsNumber rest) :
    takeDigits rest = ([], rest) := by
  cases rest with
  | nil => rfl
  | cons c rest =>
      have hc : ¬ Text.isDigit c = true := by
        rw [(hrest c rfl).1]
        exact Bool.false_ne_true
      rw [takeDigits, List.span_eq_takeWhile_dropWhile, List.takeWhile_cons_of_neg hc,
        List.dropWhile_cons_of_neg hc]

theorem takeDigits_append {digits rest : Text} (hdigits : ∀ c ∈ digits, Text.isDigit c = true)
    (hrest : EndsNumber rest) : takeDigits (digits ++ rest) = (digits, rest) := by
  have htake := takeDigits_of_endsNumber hrest
  rw [takeDigits, List.span_eq_takeWhile_dropWhile, Prod.mk.injEq] at htake
  rw [takeDigits, List.span_eq_takeWhile_dropWhile, List.takeWhile_append_of_pos hdigits,
    List.dropWhile_append_of_pos hdigits, htake.1, htake.2, List.append_nil]

/-- The first digit of a number is a zero for zero only. -/
theorem exists_decimal_eq_cons {n : Nat} (hn : n ≠ 0) :
    ∃ c rest, Text.decimal n = c :: rest ∧ c ≠ '0' := by
  induction n using Nat.strongRecOn with
  | ind n ih =>
      rw [Text.decimal, Nat.toDigits_eq_if (by decide)]
      split
      · next hlt =>
          have hdigit : ∀ digit < 10, digit ≠ 0 → digit.digitChar ≠ '0' := by decide
          exact ⟨_, [], rfl, hdigit n hlt hn⟩
      · next hle =>
          obtain ⟨c, rest, hfront, hc⟩ := ih (n / 10) (by omega) (by omega)
          rw [Text.decimal] at hfront
          exact ⟨c, _, by rw [hfront]; rfl, hc⟩

theorem readWhole_decimal (n : Nat) {rest : Text} (hrest : EndsNumber rest) :
    readWhole (Text.decimal n ++ rest) = some (Text.decimal n, rest) := by
  have htake := takeDigits_append (fun c => isDigit_of_mem_decimal (n := n)) hrest
  by_cases hn : n = 0
  · subst hn
    simp [readWhole, Text.decimal, takeDigits_of_endsNumber hrest]
  · obtain ⟨c, front, hdecimal, hc⟩ := exists_decimal_eq_cons hn
    rw [hdecimal, List.cons_append] at htake
    unfold readWhole
    rw [hdecimal, List.cons_append]
    split
    · next heq => exact absurd (List.cons.inj heq).1 hc
    · rw [htake]
      rfl

theorem readFraction_of_endsNumber {rest : Text} (hrest : EndsNumber rest) :
    readFraction rest = some ([], rest) := by
  unfold readFraction
  split
  · exact absurd rfl (hrest '.' rfl).2.1
  · rfl

theorem readExponent_of_endsNumber {rest : Text} (hrest : EndsNumber rest) :
    readExponent rest = some ([], rest) := by
  unfold readExponent
  split
  · next mark rest =>
      obtain ⟨-, -, hsmall, hlarge⟩ := hrest mark rfl
      simp [hsmall, hlarge]
  · rfl

/-- The integers that are read as such: those of 64 bits, signed or not. -/
def FitsInteger (value : Int) : Prop :=
  -(Int64.size / 2 : Int) ≤ value ∧ value < UInt64.size

theorem readNumber_printInteger {value : Int} (hvalue : FitsInteger value) {rest : Text}
    (hrest : EndsNumber rest) :
    readNumber (printInteger value ++ rest) = some (.integer value, rest) := by
  obtain ⟨hlow, hhigh⟩ := hvalue
  have hfraction := readFraction_of_endsNumber hrest
  have hexponent := readExponent_of_endsNumber hrest
  cases value with
  | ofNat n =>
      have hn : n < UInt64.size := Int.ofNat_lt.1 hhigh
      have hwhole := readWhole_decimal n hrest
      have hnatural := Text.natural?_decimal n
      rw [printInteger]
      obtain ⟨c, front, hdecimal⟩ := List.exists_cons_of_ne_nil (Text.decimal_ne_nil n)
      have hc : c ≠ '-' := by
        rintro rfl
        have hdigit : Text.isDigit '-' = true :=
          isDigit_of_mem_decimal (hdecimal ▸ List.mem_cons_self)
        exact absurd hdigit (by decide)
      rw [hdecimal, List.cons_append] at hwhole
      rw [hdecimal] at hnatural
      simp [readNumber, hdecimal, hc, hwhole, hfraction, hexponent, ofLiteral, hnatural, hn]
  | negSucc n =>
      have hn : ¬ Int64.size / 2 < n + 1 := by
        have hcast : -((Int64.size / 2 : Nat) : Int) ≤ Int.negSucc n := hlow
        omega
      have hnegative : -((n : Int) + 1) = Int.negSucc n := (Int.negSucc_eq n).symm
      simp [readNumber, printInteger, readWhole_decimal (n + 1) hrest, hfraction, hexponent,
        ofLiteral, Text.natural?_decimal, hn, hnegative]

/-! ### Values -/

/-- A value that has a text of its own. -/
inductive Printable : Json → Prop where
  | null : Printable .null
  | bool (value : Bool) : Printable (.bool value)
  | integer {value : Int} (hvalue : FitsInteger value) : Printable (.integer value)
  | string (value : String) : Printable (.string value)
  | array {items : List Json} (hitems : ∀ item ∈ items, Printable item) : Printable (.array items)
  | object {members : List (String × Json)} (hmembers : ∀ member ∈ members, Printable member.2) :
      Printable (.object members)

theorem skipSpace_cons {c : Char} (hc : isSpace c = false) (rest : Text) :
    skipSpace (c :: rest) = c :: rest :=
  List.dropWhile_cons_of_neg (by simp [hc])

theorem endsNumber_cons {c : Char}
    (hc : Text.isDigit c = false ∧ c ≠ '.' ∧ c ≠ 'e' ∧ c ≠ 'E') (rest : Text) :
    EndsNumber (c :: rest) := by
  rintro _ ⟨⟩
  exact hc

/-- What an integer begins with. -/
def IsSignOrDigit (c : Char) : Prop :=
  c = '-' ∨ Text.isDigit c = true

theorem exists_printInteger_eq_cons (value : Int) :
    ∃ c rest, printInteger value = c :: rest ∧ IsSignOrDigit c := by
  cases value with
  | ofNat n =>
      obtain ⟨c, front, hdecimal⟩ := List.exists_cons_of_ne_nil (Text.decimal_ne_nil n)
      exact ⟨c, front, hdecimal, .inr (isDigit_of_mem_decimal (hdecimal ▸ List.mem_cons_self))⟩
  | negSucc n => exact ⟨_, _, rfl, .inl rfl⟩

/-- What stands for something else in front of a value. -/
def otherFirsts : Text :=
  [' ', '\n', '\t', '\r', ']', 'n', 't', 'f', '"', '[', '\x7b']

theorem IsSignOrDigit.notMem {c : Char} (hc : IsSignOrDigit c) : c ∉ otherFirsts := by
  have hothers : ∀ other ∈ otherFirsts, other ≠ '-' ∧ Text.isDigit other = false := by
    simp [otherFirsts, Text.isDigit]
  intro hmem
  obtain ⟨hminus, hdigit⟩ := hothers c hmem
  rcases hc with rfl | hc
  · exact hminus rfl
  · rw [hdigit] at hc
    cases hc

theorem IsSignOrDigit.isSpace {c : Char} (hc : IsSignOrDigit c) : isSpace c = false := by
  have hother := hc.notMem
  simp only [otherFirsts, List.mem_cons, not_or] at hother
  simp [Json.isSpace, hother]

theorem exists_compact_eq_cons {json : Json} (hjson : json.Printable) :
    ∃ c rest, json.compact = c :: rest ∧ isSpace c = false ∧ c ≠ ']' := by
  cases hjson with
  | null => exact ⟨_, _, rfl, by decide, by decide⟩
  | bool value =>
      cases value with
      | true => exact ⟨_, _, rfl, by decide, by decide⟩
      | false => exact ⟨_, _, rfl, by decide, by decide⟩
  | @integer value hvalue =>
      obtain ⟨c, front, hprint, hc⟩ := exists_printInteger_eq_cons value
      have hother := hc.notMem
      simp only [otherFirsts, List.mem_cons, not_or] at hother
      exact ⟨c, front, by rw [compact, hprint], hc.isSpace, hother.2.2.2.2.1⟩
  | string value => exact ⟨_, _, rfl, by decide, by decide⟩
  | array hitems => exact ⟨_, _, rfl, by decide, by decide⟩
  | object hmembers => exact ⟨_, _, rfl, by decide, by decide⟩

/-- Fuel for more than the length of its text reads a value back, and leaves what comes after it.
Each of the three conditions at one fuel rests on the others at the fuel before. -/
def ReadsValues (fuel : Nat) : Prop :=
  ∀ json rest, json.Printable → json.compact.length < fuel → EndsNumber rest →
    readValue fuel (json.compact ++ rest) = some (json, rest)

def ReadsItems (fuel : Nat) : Prop :=
  ∀ items rest, items ≠ [] → (∀ item ∈ items, item.Printable) →
    (compactItems items).length + 1 < fuel →
    readItems fuel (compactItems items ++ ']' :: rest) = some (items, rest)

def ReadsMembers (fuel : Nat) : Prop :=
  ∀ members rest, members ≠ [] → (∀ member ∈ members, member.2.Printable) →
    (compactMembers members).length + 1 < fuel →
    readMembers fuel (compactMembers members ++ '\x7d' :: rest) =
      some (members.map fun member => (member.1.toList.map some, member.2), rest)

theorem compactItems_cons (item : Json) {others : List Json} (hothers : others ≠ []) :
    compactItems (item :: others) = item.compact ++ ',' :: compactItems others := by
  cases others with
  | nil => exact absurd rfl hothers
  | cons => rfl

theorem compactMembers_cons (key : String) (value : Json) {others : List (String × Json)}
    (hothers : others ≠ []) :
    compactMembers ((key, value) :: others) =
      quote key.toList ++ ':' :: (value.compact ++ ',' :: compactMembers others) := by
  cases others with
  | nil => exact absurd rfl hothers
  | cons => rfl

theorem exists_compactItems_eq_cons {items : List Json} (hne : items ≠ [])
    (hitems : ∀ item ∈ items, item.Printable) :
    ∃ c rest, compactItems items = c :: rest ∧ isSpace c = false ∧ c ≠ ']' := by
  obtain ⟨item, others, rfl⟩ := List.exists_cons_of_ne_nil hne
  obtain ⟨c, front, hitem, hc⟩ := exists_compact_eq_cons (hitems item List.mem_cons_self)
  by_cases hothers : others = []
  · subst hothers
    exact ⟨c, front, hitem, hc⟩
  · rw [compactItems_cons item hothers, hitem]
    exact ⟨c, _, rfl, hc⟩

theorem exists_compactMembers_eq_cons {members : List (String × Json)} (hne : members ≠ []) :
    ∃ rest, compactMembers members = '"' :: rest := by
  obtain ⟨⟨key, value⟩, others, rfl⟩ := List.exists_cons_of_ne_nil hne
  by_cases hothers : others = []
  · subst hothers
    exact ⟨_, rfl⟩
  · rw [compactMembers_cons key value hothers]
    exact ⟨_, rfl⟩

theorem ofMembers_map (members : List (String × Json)) :
    ofMembers (members.map fun member => (member.1.toList.map some, member.2)) =
      .object members := by
  have hdecode : (members.map fun member => (member.1.toList.map some, member.2)).mapM
      (fun member => (member.1.mapM id).map fun key => (String.ofList key, member.2)) =
        some members := by
    induction members with
    | nil => rfl
    | cons member others ih =>
        rw [List.map_cons, List.mapM_cons, ih]
        dsimp only
        rw [mapM_id_map_some, Option.map_some, String.ofList_toList]
        rfl
  exact congrArg (fun decoded => decoded.elim undecodable object) hdecode

theorem readValue_array {fuel : Nat} (hreads : ReadsItems fuel) {items : List Json} {rest : Text}
    (hitems : ∀ item ∈ items, item.Printable) (hfuel : (compactItems items).length + 1 < fuel) :
    readValue (fuel + 1) ('[' :: (compactItems items ++ ']' :: rest)) =
      some (.array items, rest) := by
  rw [readValue, skipSpace_cons (by decide)]
  by_cases hne : items = []
  · subst hne
    rfl
  · have hread := hreads items rest hne hitems hfuel
    obtain ⟨c, front, hfirst, hspace, hc⟩ := exists_compactItems_eq_cons hne hitems
    rw [hfirst, List.cons_append] at hread ⊢
    simp [skipSpace_cons hspace, hc, hread]

theorem readValue_object {fuel : Nat} (hreads : ReadsMembers fuel) {members : List (String × Json)}
    {rest : Text} (hmembers : ∀ member ∈ members, member.2.Printable)
    (hfuel : (compactMembers members).length + 1 < fuel) :
    readValue (fuel + 1) ('\x7b' :: (compactMembers members ++ '\x7d' :: rest)) =
      some (.object members, rest) := by
  rw [readValue, skipSpace_cons (by decide)]
  by_cases hne : members = []
  · subst hne
    rfl
  · have hread := hreads members rest hne hmembers hfuel
    obtain ⟨front, hfirst⟩ := exists_compactMembers_eq_cons hne
    rw [hfirst, List.cons_append] at hread ⊢
    simp [skipSpace_cons, isSpace, hread, ofMembers_map]

theorem readValue_succ {fuel : Nat} (hitems : ReadsItems fuel) (hmembers : ReadsMembers fuel) :
    ReadsValues (fuel + 1) := by
  intro json rest hjson hfuel hrest
  cases hjson with
  | null => rfl
  | bool value => cases value <;> rfl
  | @integer value hvalue =>
      obtain ⟨c, front, hprint, hc⟩ := exists_printInteger_eq_cons value
      have hother := hc.notMem
      simp only [otherFirsts, List.mem_cons, not_or] at hother
      have hnumber := readNumber_printInteger hvalue hrest
      rw [compact]
      rw [hprint, List.cons_append] at hnumber ⊢
      rw [readValue, skipSpace_cons hc.isSpace]
      simp [hother, hnumber]
  | string value =>
      rw [compact, quote, readValue, List.cons_append, skipSpace_cons (by decide)]
      simp [readString_quoted, ofCharacters_toList]
  | array hprintable =>
      rw [compact, List.length_cons, List.length_append, List.length_singleton] at hfuel
      rw [compact, List.cons_append, List.append_assoc]
      exact readValue_array hitems hprintable (by omega)
  | object hprintable =>
      rw [compact, List.length_cons, List.length_append, List.length_singleton] at hfuel
      rw [compact, List.cons_append, List.append_assoc]
      exact readValue_object hmembers hprintable (by omega)

theorem readItems_succ {fuel : Nat} (hvalues : ReadsValues fuel) (hitems : ReadsItems fuel) :
    ReadsItems (fuel + 1) := by
  intro items rest hne hprintable hfuel
  obtain ⟨item, others, rfl⟩ := List.exists_cons_of_ne_nil hne
  rw [List.forall_mem_cons] at hprintable
  by_cases hothers : others = []
  · subst hothers
    rw [compactItems] at hfuel ⊢
    rw [readItems, hvalues item _ hprintable.1 (by omega) (endsNumber_cons (by decide) rest)]
    rfl
  · rw [compactItems_cons item hothers, List.length_append, List.length_cons] at hfuel
    have hvalue := hvalues item (',' :: (compactItems others ++ ']' :: rest)) hprintable.1
      (by omega) (endsNumber_cons (by decide) _)
    have hrest := hitems others rest hothers hprintable.2 (by omega)
    rw [compactItems_cons item hothers, List.append_assoc, List.cons_append, readItems, hvalue]
    simp [skipSpace_cons, isSpace, hrest]

theorem readMembers_succ {fuel : Nat} (hvalues : ReadsValues fuel) (hmembers : ReadsMembers fuel) :
    ReadsMembers (fuel + 1) := by
  intro members rest hne hprintable hfuel
  obtain ⟨member, others, rfl⟩ := List.exists_cons_of_ne_nil hne
  obtain ⟨key, value⟩ := member
  rw [List.forall_mem_cons] at hprintable
  by_cases hothers : others = []
  · subst hothers
    rw [compactMembers, List.length_append, List.length_cons] at hfuel
    have hvalue := hvalues value ('\x7d' :: rest) hprintable.1 (by omega)
      (endsNumber_cons (by decide) rest)
    simp [compactMembers, readMembers, quote, skipSpace_cons, isSpace, readString_quoted, hvalue]
  · rw [compactMembers_cons key value hothers, List.length_append, List.length_cons,
      List.length_append, List.length_cons] at hfuel
    have hvalue := hvalues value (',' :: (compactMembers others ++ '\x7d' :: rest)) hprintable.1
      (by omega) (endsNumber_cons (by decide) _)
    have hrest := hmembers others rest hothers hprintable.2 (by omega)
    rw [compactMembers_cons key value hothers]
    simp [readMembers, quote, skipSpace_cons, isSpace, readString_quoted, hvalue, hrest]

theorem reads_compact (fuel : Nat) : ReadsValues fuel ∧ ReadsItems fuel ∧ ReadsMembers fuel := by
  induction fuel with
  | zero =>
      exact ⟨fun _ _ _ hfuel _ => absurd hfuel (Nat.not_lt_zero _),
        fun _ _ _ _ hfuel => absurd hfuel (Nat.not_lt_zero _),
        fun _ _ _ _ hfuel => absurd hfuel (Nat.not_lt_zero _)⟩
  | succ fuel ih =>
      obtain ⟨hvalues, hitems, hmembers⟩ := ih
      exact ⟨readValue_succ hitems hmembers, readItems_succ hvalues hitems,
        readMembers_succ hvalues hmembers⟩

/-- **What is printed is read back.** -/
theorem read?_compact {json : Json} (hjson : json.Printable) : read? json.compact = some json := by
  have hread := (reads_compact (json.compact.length + 1)).1 json [] hjson (Nat.lt_succ_self _)
    endsNumber_nil
  rw [List.append_nil] at hread
  rw [read?, hread]
  rfl

end HclEdit.Json
