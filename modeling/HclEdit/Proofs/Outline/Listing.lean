import HclEdit.Outline.Listing
import HclEdit.Proofs.Lines.Shape
import HclEdit.Proofs.Outline.Around
import HclEdit.Proofs.Text.Decimal

/-!
# What a listing tells

The listing of an outline has one row for each item. The spaces in front of a row give the depth,
the word behind them the kind and the digits at the end the line, so the name is what is left, even
if it looks like another part of a row. The depths of the rows tell which item lies below which.
-/

namespace HclEdit

namespace OutlineItem

/-- What the listing shows of an item. -/
@[ext] structure Row where
  depth : Nat
  kind : Definition
  name : Text
  line : Nat

def Row.text (row : Row) : Text :=
  List.replicate (2 * row.depth) ' ' ++ row.kind.name.toList ++ ' ' :: row.name ++
    " (line ".toList ++ Text.decimal row.line ++ [')']

mutual

/-- The rows of an item and of all items below it, from top to bottom. -/
def rows (depth : Nat) : OutlineItem → List Row
  | ⟨kind, name, line, _, children⟩ => ⟨depth, kind, name, line⟩ :: rowsOfAll (depth + 1) children

def rowsOfAll (depth : Nat) : List OutlineItem → List Row
  | [] => []
  | item :: rest => item.rows depth ++ rowsOfAll depth rest

end

/-- Items of one shape that differ in their spans at most. -/
inductive Alike : OutlineItem → OutlineItem → Prop where
  | intro {kind : Definition} {name : Text} {line : Nat} {span otherSpan : Span}
      {children otherChildren : List OutlineItem}
      (hchildren : List.Forall₂ Alike children otherChildren) :
      Alike ⟨kind, name, line, span, children⟩ ⟨kind, name, line, otherSpan, otherChildren⟩

/-- No name in an outline, at any level, goes over the end of a line. -/
def HasPlainNames (items : List OutlineItem) : Prop :=
  ∀ item ∈ entriesOfAll items, '\n' ∉ item.name

instance (items : List OutlineItem) : Decidable (HasPlainNames items) :=
  inferInstanceAs (Decidable (∀ item ∈ entriesOfAll items, '\n' ∉ item.name))

/-! ### Rows as they are written -/

mutual

theorem listing_eq : ∀ (depth : Nat) (item : OutlineItem),
    item.listing depth = (item.rows depth).flatMap (·.text ++ ['\n'])
  | depth, ⟨kind, name, line, _, children⟩ => by
      rw [listing, rows, List.flatMap_cons, listingOfAll_eq (depth + 1) children]
      simp [heading, Row.text]

theorem listingOfAll_eq : ∀ (depth : Nat) (items : List OutlineItem),
    listingOfAll depth items = (rowsOfAll depth items).flatMap (·.text ++ ['\n'])
  | _, [] => rfl
  | depth, item :: rest => by
      rw [listingOfAll, rowsOfAll, List.flatMap_append, listing_eq depth item,
        listingOfAll_eq depth rest]

end

mutual

theorem map_rows : ∀ (depth : Nat) (item : OutlineItem),
    (item.rows depth).map (fun row => (row.kind, row.name, row.line)) =
      item.entries.map fun entry => (entry.kind, entry.name, entry.line)
  | depth, ⟨kind, name, line, _, children⟩ => by
      rw [rows, entries, List.map_cons, List.map_cons, map_rowsOfAll (depth + 1) children]

theorem map_rowsOfAll : ∀ (depth : Nat) (items : List OutlineItem),
    (rowsOfAll depth items).map (fun row => (row.kind, row.name, row.line)) =
      (entriesOfAll items).map fun entry => (entry.kind, entry.name, entry.line)
  | _, [] => rfl
  | depth, item :: rest => by
      rw [rowsOfAll, entriesOfAll, List.map_append, List.map_append, map_rows depth item,
        map_rowsOfAll depth rest]

end

theorem HasPlainNames.row {items : List OutlineItem} (hnames : HasPlainNames items) {depth : Nat} :
    ∀ row ∈ rowsOfAll depth items, '\n' ∉ row.name := by
  intro row hrow
  have hmem : (row.kind, row.name, row.line) ∈
      (entriesOfAll items).map fun entry => (entry.kind, entry.name, entry.line) := by
    rw [← map_rowsOfAll depth items]
    exact List.mem_map_of_mem hrow
  obtain ⟨entry, hentry, heq⟩ := List.mem_map.1 hmem
  have hname : entry.name = row.name := congrArg (·.2.1) heq
  exact hname ▸ hnames entry hentry

/-! ### One row -/

theorem exists_name_eq_cons (kind : Definition) :
    ∃ c rest, kind.name.toList = c :: rest ∧ (c == ' ') = false := by
  cases kind with
  | attr => exact ⟨'a', "ttribute".toList, rfl, rfl⟩
  | block => exact ⟨'b', "lock".toList, rfl, rfl⟩

/-- What follows the spaces of a row. -/
def Row.body (row : Row) : Text :=
  row.kind.name.toList ++
    ' ' :: ((row.name ++ " (line".toList) ++ ' ' :: Text.decimal row.line ++ [')'])

theorem Row.text_eq (row : Row) : row.text = List.replicate (2 * row.depth) ' ' ++ row.body := by
  simp [text, body]

theorem Row.takeWhile_text (row : Row) :
    row.text.takeWhile (· == ' ') = List.replicate (2 * row.depth) ' ' := by
  obtain ⟨c, rest, hname, hc⟩ := exists_name_eq_cons row.kind
  rw [text_eq, body, hname]
  refine takeWhile_append_cons (p := (· == ' ')) (fun d hd => ?_) hc _
  rw [List.eq_of_mem_replicate hd]
  rfl

theorem Row.getLast?_text (row : Row) : row.text.getLast? = some ')' :=
  List.getLast?_concat

theorem Row.newline_not_mem_text {row : Row} (hname : '\n' ∉ row.name) : '\n' ∉ row.text := by
  have hkind : '\n' ∉ row.kind.name.toList := by cases row.kind <;> decide
  have hdecimal : '\n' ∉ Text.decimal row.line := by
    intro hmem
    exact absurd (Text.isDigit_of_mem_decimal hmem) (by decide)
  have hspaces : '\n' ∉ List.replicate (2 * row.depth) ' ' := by
    intro hmem
    exact absurd (List.eq_of_mem_replicate hmem) (by decide)
  simp [text, hname, hkind, hdecimal, hspaces]

theorem kind_eq_of_append {kind other : Definition} {rest more : Text}
    (happend : kind.name.toList ++ ' ' :: rest = other.name.toList ++ ' ' :: more) :
    kind = other ∧ rest = more := by
  have hkind : kind = other := by cases kind <;> cases other <;> simp_all [Definition.name]
  subst hkind
  exact ⟨rfl, (List.cons.inj (List.append_cancel_left happend)).2⟩

/-- **A row determines what it shows.** -/
theorem Row.eq_of_text_eq {row other : Row} (htext : row.text = other.text) : row = other := by
  have hspaces := row.takeWhile_text
  rw [htext, other.takeWhile_text] at hspaces
  have hdepth : row.depth = other.depth := by
    have hlength := congrArg List.length hspaces
    rw [List.length_replicate, List.length_replicate] at hlength
    omega
  rw [text_eq, text_eq, hdepth] at htext
  have hbody : row.body = other.body := List.append_cancel_left htext
  -- The kind is told by its first letter and the line from behind, so the name is what is left.
  obtain ⟨hkind, hrest⟩ := kind_eq_of_append hbody
  obtain ⟨hfront, hline⟩ := Text.eq_of_append_decimal (List.append_cancel_right hrest)
  exact Row.ext hdepth hkind (List.append_cancel_right hfront) hline

/-! ### The rows of an outline -/

/-- What follows the rows of an outline, as long as nothing goes on at their depth. -/
def EndsAbove (depth : Nat) (rows : List Row) : Prop :=
  ∀ row ∈ rows.head?, row.depth < depth

theorem rows_eq_cons (depth : Nat) (item : OutlineItem) :
    item.rows depth =
      ⟨depth, item.kind, item.name, item.line⟩ :: rowsOfAll (depth + 1) item.children := by
  cases item
  rw [rows]

theorem endsAbove_nil (depth : Nat) : EndsAbove depth [] := by
  simp [EndsAbove]

theorem not_endsAbove_rowsOfAll_cons (depth : Nat) (item : OutlineItem) (items : List OutlineItem)
    (more : List Row) : ¬ EndsAbove depth (rowsOfAll depth (item :: items) ++ more) := by
  intro hends
  rw [rowsOfAll, rows_eq_cons] at hends
  exact Nat.lt_irrefl depth (hends _ rfl)

theorem endsAbove_rowsOfAll_append {depth : Nat} {rest : List Row} (hrest : EndsAbove depth rest)
    (items : List OutlineItem) : EndsAbove (depth + 1) (rowsOfAll depth items ++ rest) := by
  cases items with
  | nil => exact fun row hrow => Nat.lt_succ_of_lt (hrest row hrow)
  | cons item others =>
      intro row hrow
      rw [rowsOfAll, rows_eq_cons, List.cons_append, List.cons_append] at hrow
      rw [← Option.some.inj hrow]
      exact Nat.lt_succ_self depth

/-- Rows with nothing behind them at their depth come from outlines of one shape. -/
theorem alike_of_rowsOfAll_append : ∀ {depth : Nat} {items others : List OutlineItem}
    {rest more : List Row}, EndsAbove depth rest → EndsAbove depth more →
      rowsOfAll depth items ++ rest = rowsOfAll depth others ++ more →
      List.Forall₂ Alike items others ∧ rest = more
  | depth, [], [], rest, more, _, _, hrows => ⟨.nil, hrows⟩
  | depth, [], other :: others, rest, more, hrest, _, hrows =>
      absurd (hrows ▸ hrest) (not_endsAbove_rowsOfAll_cons depth other others more)
  | depth, item :: items, [], rest, more, _, hmore, hrows =>
      absurd (hrows.symm ▸ hmore) (not_endsAbove_rowsOfAll_cons depth item items rest)
  | depth, ⟨kind, name, line, span, children⟩ :: items,
      ⟨otherKind, otherName, otherLine, otherSpan, otherChildren⟩ :: others, rest, more,
      hrest, hmore, hrows => by
      rw [rowsOfAll, rowsOfAll, rows, rows, List.append_assoc, List.append_assoc,
        List.cons_append, List.cons_append] at hrows
      obtain ⟨hrow, hbelow⟩ := List.cons.inj hrows
      -- The rows of the children come first, and what follows them goes on higher up.
      obtain ⟨hchildren, hbehind⟩ := alike_of_rowsOfAll_append
        (endsAbove_rowsOfAll_append hrest items) (endsAbove_rowsOfAll_append hmore others) hbelow
      obtain ⟨hitems, hends⟩ := alike_of_rowsOfAll_append hrest hmore hbehind
      cases hrow
      exact ⟨.cons (.intro hchildren) hitems, hends⟩

mutual

theorem Alike.rows_eq : ∀ {item other : OutlineItem} (depth : Nat), Alike item other →
    item.rows depth = other.rows depth
  | _, _, depth, .intro hchildren => by
      rw [rows, rows, rowsOfAll_eq_of_alike (depth + 1) hchildren]

theorem rowsOfAll_eq_of_alike : ∀ {items others : List OutlineItem} (depth : Nat),
    List.Forall₂ Alike items others → rowsOfAll depth items = rowsOfAll depth others
  | [], [], _, .nil => rfl
  | _ :: _, _ :: _, depth, .cons hitem hrest => by
      rw [rowsOfAll, rowsOfAll, hitem.rows_eq depth, rowsOfAll_eq_of_alike depth hrest]

end

theorem rowsOfAll_eq_iff (depth : Nat) {items others : List OutlineItem} :
    rowsOfAll depth items = rowsOfAll depth others ↔ List.Forall₂ Alike items others := by
  constructor
  · intro hrows
    have happend : rowsOfAll depth items ++ [] = rowsOfAll depth others ++ [] :=
      congrArg (· ++ []) hrows
    have hends := endsAbove_nil depth
    exact (alike_of_rowsOfAll_append hends hends happend).1
  · exact rowsOfAll_eq_of_alike depth

theorem HasPlainNames.lines_listing {items : List OutlineItem} (hnames : HasPlainNames items)
    (depth : Nat) : (listingOfAll depth items).lines = (rowsOfAll depth items).map Row.text := by
  have hrows : ∀ text ∈ (rowsOfAll depth items).map Row.text,
      '\n' ∉ text ∧ text.getLast? ≠ some '\r' := by
    intro text htext
    obtain ⟨row, hrow, rfl⟩ := List.mem_map.1 htext
    refine ⟨Row.newline_not_mem_text (hnames.row row hrow), ?_⟩
    rw [row.getLast?_text]
    decide
  rw [listingOfAll_eq, ← Text.lines_of_newlines hrows, List.flatMap_map]

/-- **A listing determines its outline.** Outlines whose names keep to one line have the same
listing just when they are of one shape and agree in everything but the spans. A listing has one
line for each item at any level, from top to bottom, with two spaces in front for each level above
it. -/
theorem listing_determines_outline :
    (∀ items others, HasPlainNames items → HasPlainNames others →
      (listingOfAll 0 items = listingOfAll 0 others ↔ List.Forall₂ Alike items others)) ∧
    ∀ items, HasPlainNames items →
      (listingOfAll 0 items).lines = (rowsOfAll 0 items).map Row.text ∧
      listingOfAll 0 items = ((rowsOfAll 0 items).map Row.text).flatMap (· ++ ['\n']) ∧
      (rowsOfAll 0 items).map (fun row => (row.kind, row.name, row.line)) =
        (entriesOfAll items).map (fun entry => (entry.kind, entry.name, entry.line)) ∧
      ∀ row ∈ rowsOfAll 0 items, (row.text.takeWhile (· == ' ')).length = 2 * row.depth := by
  refine ⟨?determines, ?rows⟩
  case determines =>
    intro items others hitems hothers
    rw [← rowsOfAll_eq_iff 0]
    constructor
    · intro hlisting
      have hlines := congrArg Text.lines hlisting
      rw [hitems.lines_listing, hothers.lines_listing] at hlines
      exact List.map_injective_iff.2 (fun _ _ => Row.eq_of_text_eq) hlines
    · intro hrows
      rw [listingOfAll_eq, listingOfAll_eq, hrows]
  case rows =>
    intro items hitems
    refine ⟨hitems.lines_listing 0, ?_, map_rowsOfAll 0 items, fun row _ => ?_⟩
    · rw [listingOfAll_eq, List.flatMap_map]
    · rw [row.takeWhile_text, List.length_replicate]

/-- Names that look like the end of a row and like the start of one that lies deeper. -/
def lookalikes (offset : Nat) : List OutlineItem :=
  [⟨.block, "a (line 3)".toList, 1, ⟨offset, offset + 9⟩,
      [⟨.attr, "  block b".toList, 2, ⟨offset + 1, offset + 4⟩, []⟩]⟩,
    ⟨.block, [], 3, ⟨offset + 9, offset + 9⟩, []⟩]

theorem listing_determines_lookalikes :
    HasPlainNames (lookalikes 0) ∧ HasPlainNames (lookalikes 5) ∧
      listingOfAll 0 (lookalikes 0) = listingOfAll 0 (lookalikes 5) ∧
      List.Forall₂ Alike (lookalikes 0) (lookalikes 5) ∧
      (listingOfAll 0 (lookalikes 0)).lines =
        ["block a (line 3) (line 1)".toList, "  attribute   block b (line 2)".toList,
          "block  (line 3)".toList] := by
  have hnames : HasPlainNames (lookalikes 0) := by decide
  have hmoved : HasPlainNames (lookalikes 5) := by decide
  have hsame : listingOfAll 0 (lookalikes 0) = listingOfAll 0 (lookalikes 5) := by decide
  obtain ⟨hdetermines, hrows⟩ := listing_determines_outline
  refine ⟨hnames, hmoved, hsame, (hdetermines _ _ hnames hmoved).1 hsame, ?_⟩
  rw [(hrows _ hnames).1]
  decide

end OutlineItem

end HclEdit
