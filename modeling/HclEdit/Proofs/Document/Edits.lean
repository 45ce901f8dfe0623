import HclEdit.Document
import HclEdit.Proofs.Lines.Partition
import HclEdit.Text.Blank

/-!
# Edits splice a source

An edit fits a source when its span lies in it and cuts no character in two. The source is then a
front, what the span holds and a back, and the edit puts its replacement in the middle. From this
one form of an edited source it follows that an edit is undone by the edit that puts the old text
back, and that of two edits with disjoint spans either can be made first, with the later one moved
by what the earlier one adds.
-/

namespace HclEdit

namespace Text

/-- The shorter of two fronts of a text begins the longer one. -/
theorem exists_between_of_append_eq {front rest longer back : Text}
    (htext : front ++ rest = longer ++ back) (hle : byteLength front ≤ byteLength longer) :
    ∃ middle, longer = front ++ middle ∧ rest = middle ++ back := by
  rcases List.append_eq_append_iff.1 htext with ⟨middle, rfl, rfl⟩ | ⟨middle, rfl, rfl⟩
  · exact ⟨middle, rfl, rfl⟩
  · cases middle with
    | nil => exact ⟨[], by simp, rfl⟩
    | cons c middle =>
        have hpos := c.utf8Size_pos
        rw [byteLength_append, byteLength_cons] at hle
        omega

theorem slice_of_eq_append {text front middle back : Text}
    (htext : text = front ++ (middle ++ back)) {start stop : Nat}
    (hstart : byteLength front = start) (hstop : start + byteLength middle = stop) :
    text.slice start stop = middle := by
  rw [slice, slice?_of_eq_append htext hstart hstop]
  rfl

end Text

namespace Edit

/-- The span lies in the source and has whole characters on both sides. -/
def Fits (edit : Edit) (source : Text) : Prop :=
  edit.span.start ≤ edit.span.stop ∧ edit.span.stop ≤ Text.byteLength source ∧
    source.BetweenCharacters edit.span.start ∧ source.BetweenCharacters edit.span.stop

instance (edit : Edit) (source : Text) : Decidable (edit.Fits source) :=
  inferInstanceAs (Decidable (_ ∧ _ ∧ _ ∧ _))

/-- What stands before the span, the replacement, and what stands behind the span. -/
def spliced (edit : Edit) (source : Text) : Text :=
  source.slice 0 edit.span.start ++ edit.replacement ++
    source.slice edit.span.stop (Text.byteLength source)

/-- Puts back what the edit takes out of the source. -/
def inverse (edit : Edit) (source : Text) : Edit :=
  { span := ⟨edit.span.start, edit.span.start + Text.byteLength edit.replacement⟩
    replacement := source.slice edit.span.start edit.span.stop }

/-- The same edit of what stands behind an earlier one, once that one is made. -/
def movedBy (edit earlier : Edit) : Edit :=
  let moved (offset : Nat) : Nat :=
    offset + Text.byteLength earlier.replacement - (earlier.span.stop - earlier.span.start)
  { edit with span := ⟨moved edit.span.start, moved edit.span.stop⟩ }

/-- The span holds `middle`, with `front` before it and `back` behind it. -/
structure Cuts (edit : Edit) (source front middle back : Text) : Prop where
  source_eq : source = front ++ (middle ++ back)
  start_eq : Text.byteLength front = edit.span.start
  stop_eq : edit.span.start + Text.byteLength middle = edit.span.stop

section Cuts

variable {edit : Edit} {source front middle back : Text}
  (hcuts : edit.Cuts source front middle back)
include hcuts

theorem Cuts.stop_eq_front : Text.byteLength (front ++ middle) = edit.span.stop := by
  rw [Text.byteLength_append, hcuts.start_eq, hcuts.stop_eq]

theorem Cuts.fits : edit.Fits source := by
  have hstop := hcuts.stop_eq_front
  obtain ⟨rfl, hstart, hmiddle⟩ := hcuts
  refine ⟨by omega, ?_, ?_, ?_⟩
  · rw [← List.append_assoc, Text.byteLength_append, hstop]
    exact Nat.le_add_right _ _
  · rw [← hstart]
    exact Text.betweenCharacters_append front (middle ++ back)
  · rw [← hstop, ← List.append_assoc]
    exact Text.betweenCharacters_append (front ++ middle) back

theorem Cuts.slice_span : source.slice edit.span.start edit.span.stop = middle :=
  Text.slice_of_eq_append hcuts.source_eq hcuts.start_eq hcuts.stop_eq

theorem Cuts.spliced_eq : edit.spliced source = front ++ edit.replacement ++ back := by
  have hwhole : source = [] ++ (front ++ (middle ++ back)) := hcuts.source_eq
  have hlast : source = front ++ middle ++ (back ++ []) := by simp [hcuts.source_eq]
  have hlength : edit.span.stop + Text.byteLength back = Text.byteLength source := by
    rw [← hcuts.stop_eq_front, hlast, List.append_nil, ← Text.byteLength_append]
  have hfront : source.slice 0 edit.span.start = front :=
    Text.slice_of_eq_append hwhole rfl ((Nat.zero_add _).trans hcuts.start_eq)
  have hback : source.slice edit.span.stop (Text.byteLength source) = back :=
    Text.slice_of_eq_append hlast hcuts.stop_eq_front hlength
  rw [spliced, hfront, hback]

theorem Cuts.apply_eq : edit.apply source = .ok (edit.spliced source) := by
  have hle : edit.span.start ≤ edit.span.stop := hcuts.fits.1
  have hfront : source.cut? edit.span.start = some (front, middle ++ back) :=
    Text.cut?_eq_some_iff.2 ⟨hcuts.source_eq, hcuts.start_eq⟩
  have hback : source.cut? edit.span.stop = some (front ++ middle, back) :=
    Text.cut?_eq_some_iff.2 ⟨by rw [hcuts.source_eq, List.append_assoc], hcuts.stop_eq_front⟩
  rw [hcuts.spliced_eq, apply, if_pos hle, hfront, hback]

theorem Cuts.inverse :
    (edit.inverse source).Cuts (edit.spliced source) front edit.replacement back where
  source_eq := by rw [hcuts.spliced_eq, List.append_assoc]
  start_eq := hcuts.start_eq
  stop_eq := rfl

theorem Cuts.spliced_inverse : (edit.inverse source).spliced (edit.spliced source) = source := by
  rw [hcuts.inverse.spliced_eq, Edit.inverse, hcuts.slice_span, hcuts.source_eq, List.append_assoc]

end Cuts

theorem exists_cuts_of_append {edit : Edit} {source front rest longer back : Text}
    (hle : edit.span.start ≤ edit.span.stop) (hfront : source = front ++ rest)
    (hstart : Text.byteLength front = edit.span.start) (hlonger : source = longer ++ back)
    (hstop : Text.byteLength longer = edit.span.stop) :
    ∃ middle, edit.Cuts source front middle back := by
  obtain ⟨middle, rfl, rfl⟩ :=
    Text.exists_between_of_append_eq (hfront.symm.trans hlonger) (by omega)
  rw [Text.byteLength_append] at hstop
  exact ⟨middle, hfront, hstart, by omega⟩

theorem Fits.exists_cuts {edit : Edit} {source : Text} (hfits : edit.Fits source) :
    ∃ front middle back, edit.Cuts source front middle back := by
  obtain ⟨hle, -, hstart, hstop⟩ := hfits
  obtain ⟨front, rest, hfront, hfrontLength⟩ := Text.exists_append_of_betweenCharacters hstart
  obtain ⟨longer, back, hlonger, hlongerLength⟩ := Text.exists_append_of_betweenCharacters hstop
  obtain ⟨middle, hcuts⟩ := exists_cuts_of_append hle hfront hfrontLength hlonger hlongerLength
  exact ⟨front, middle, back, hcuts⟩

theorem fits_of_apply_eq_ok {edit : Edit} {source edited : Text}
    (happly : edit.apply source = .ok edited) : edit.Fits source := by
  unfold apply at happly
  dsimp only at happly
  split at happly
  · next hle =>
      split at happly
      · next front rest longer back hfront hlonger =>
          obtain ⟨hsource, hstart⟩ := Text.cut?_eq_some_iff.1 hfront
          obtain ⟨hsourceAgain, hstop⟩ := Text.cut?_eq_some_iff.1 hlonger
          obtain ⟨middle, hcuts⟩ := exists_cuts_of_append hle hsource hstart hsourceAgain hstop
          exact hcuts.fits
      · exact absurd happly nofun
  · exact absurd happly nofun

theorem apply_eq (edit : Edit) (source : Text) :
    edit.apply source =
      if edit.Fits source then .ok (edit.spliced source)
      else .error (.editOutside edit.span.start edit.span.stop (Text.byteLength source)) := by
  by_cases hfits : edit.Fits source
  · obtain ⟨front, middle, back, hcuts⟩ := hfits.exists_cuts
    rw [if_pos hfits, hcuts.apply_eq]
  · rw [if_neg hfits]
    cases happly : edit.apply source with
    | ok edited => exact absurd (fits_of_apply_eq_ok happly) hfits
    | error reason =>
        unfold apply at happly
        dsimp only at happly
        split at happly
        · split at happly
          · exact absurd happly nofun
          · exact happly.symm
        · exact happly.symm

/-! ### Two edits -/

section Disjoint

variable {first second : Edit} {source front middle back : Text}

/-- Between two spans, the second of which starts behind the first, there is a piece of the source
that neither edit touches. -/
theorem Cuts.exists_gap {longer taken rest : Text} (hfirst : first.Cuts source front middle back)
    (hsecond : second.Cuts source longer taken rest) (hle : first.span.stop ≤ second.span.start) :
    ∃ gap, longer = front ++ middle ++ gap ∧ back = gap ++ (taken ++ rest) := by
  apply Text.exists_between_of_append_eq
  · rw [List.append_assoc, ← hfirst.source_eq, hsecond.source_eq]
  · rw [hfirst.stop_eq_front, hsecond.start_eq]
    exact hle

variable {gap taken rest : Text} (hfirst : first.Cuts source front middle (gap ++ (taken ++ rest)))
  (hsecond : second.Cuts source (front ++ middle ++ gap) taken rest)
include hfirst hsecond

/-- The later edit, made second. -/
theorem Cuts.movedBy : (second.movedBy first).Cuts (first.spliced source)
    (front ++ first.replacement ++ gap) taken rest := by
  have hstart := hsecond.start_eq
  have hstop := hsecond.stop_eq
  have hremoved := hfirst.stop_eq
  rw [Text.byteLength_append, hfirst.stop_eq_front] at hstart
  refine ⟨?_, ?_, ?_⟩
  · rw [hfirst.spliced_eq]
    simp only [List.append_assoc]
  · rw [Text.byteLength_append, Text.byteLength_append, hfirst.start_eq]
    simp only [Edit.movedBy]
    omega
  · simp only [Edit.movedBy]
    omega

/-- The earlier edit, made second. -/
theorem Cuts.after : first.Cuts (second.spliced source) front middle
    (gap ++ (second.replacement ++ rest)) where
  source_eq := by
    rw [hsecond.spliced_eq]
    simp only [List.append_assoc]
  start_eq := hfirst.start_eq
  stop_eq := hfirst.stop_eq

theorem Cuts.spliced_comm :
    (second.movedBy first).spliced (first.spliced source) =
      first.spliced (second.spliced source) := by
  have hreplacement : (second.movedBy first).replacement = second.replacement := rfl
  rw [(hfirst.movedBy hsecond).spliced_eq, (hfirst.after hsecond).spliced_eq, hreplacement]
  simp only [List.append_assoc]

end Disjoint

end Edit

/-! ### Edits of a document -/

/-- A parser for edited sources. It may make use of the document as it was and of the edit. -/
abbrev Reparser :=
  Document → Edit → Text → Except SourceError ParseTree

namespace Reparser

def edited (parser : Reparser) (document : Document) (edit : Edit) : Except SourceError Document :=
  document.edited edit (parser document edit)

/-- The parser finds a tree in every source. -/
def FindsTrees (parser : Reparser) : Prop :=
  ∀ document edit source, ∃ parse, parser document edit source = .ok parse

variable {parser : Reparser} (htrees : parser.FindsTrees) {document : Document} {edit : Edit}

include htrees in
theorem exists_edited_of_fits (hfits : edit.Fits document.source) :
    ∃ after, parser.edited document edit = .ok after ∧
      after.source = edit.spliced document.source := by
  obtain ⟨parse, hparse⟩ := htrees document edit (edit.spliced document.source)
  refine ⟨⟨edit.spliced document.source, parse⟩, ?_, rfl⟩
  rw [edited, Document.edited, edit.apply_eq, if_pos hfits]
  simp only [bind, Except.bind, hparse]
  rfl

theorem edited_of_not_fits (hfits : ¬ edit.Fits document.source) :
    parser.edited document edit = .error
      (.editOutside edit.span.start edit.span.stop (Text.byteLength document.source)) := by
  rw [edited, Document.edited, edit.apply_eq, if_neg hfits]
  rfl

theorem fits_of_edited {after : Document} (hedited : parser.edited document edit = .ok after) :
    edit.Fits document.source := by
  by_contra hfits
  rw [edited_of_not_fits hfits] at hedited
  exact absurd hedited nofun

include htrees in
theorem source_of_edited {after : Document} (hedited : parser.edited document edit = .ok after) :
    after.source = edit.spliced document.source := by
  obtain ⟨found, hfound, hsource⟩ := exists_edited_of_fits htrees (fits_of_edited hedited)
  obtain rfl := Except.ok.inj (hfound.symm.trans hedited)
  exact hsource

/-- **Edits splice, can be undone, and commute when disjoint.** With a parser that finds a tree in
every source, an edit is accepted just when it fits, and is refused with its bounds and the length
of the source otherwise. The new source is the old one with the span replaced. The inverse of an
accepted edit is accepted and gives the old source back. Two accepted edits, the second behind the
first, lead to the same source in either order, the second moved by what the first adds when it is
made after it, and none of the four steps is refused. -/
theorem edits_splice (parser : Reparser) (htrees : parser.FindsTrees) :
    (∀ document edit, (∃ after, parser.edited document edit = .ok after) ↔
      edit.Fits document.source) ∧
    (∀ document edit, ¬ edit.Fits document.source → parser.edited document edit = .error
      (.editOutside edit.span.start edit.span.stop (Text.byteLength document.source))) ∧
    (∀ document edit after, parser.edited document edit = .ok after →
      after.source = edit.spliced document.source) ∧
    (∀ document edit after, parser.edited document edit = .ok after →
      ∃ restored, parser.edited after (edit.inverse document.source) = .ok restored ∧
        restored.source = document.source) ∧
    (∀ document first second afterFirst afterSecond,
      parser.edited document first = .ok afterFirst →
      parser.edited document second = .ok afterSecond →
      first.span.stop ≤ second.span.start →
      ∃ forward backward, parser.edited afterFirst (second.movedBy first) = .ok forward ∧
        parser.edited afterSecond first = .ok backward ∧ forward.source = backward.source) := by
  refine ⟨?accepted, ?refused, ?source, ?undone, ?commute⟩
  case accepted =>
    intro document edit
    constructor
    · rintro ⟨after, hedited⟩
      exact fits_of_edited hedited
    · intro hfits
      obtain ⟨after, hedited, -⟩ := exists_edited_of_fits htrees hfits
      exact ⟨after, hedited⟩
  case refused => exact fun document edit hfits => edited_of_not_fits hfits
  case source => exact fun document edit after hedited => source_of_edited htrees hedited
  case undone =>
    intro document edit after hedited
    obtain ⟨front, middle, back, hcuts⟩ := (fits_of_edited hedited).exists_cuts
    have hsource := source_of_edited htrees hedited
    have hfits : (edit.inverse document.source).Fits after.source := by
      rw [hsource]
      exact hcuts.inverse.fits
    obtain ⟨restored, hrestored, hback⟩ := exists_edited_of_fits htrees hfits
    refine ⟨restored, hrestored, ?_⟩
    rw [hback, hsource, hcuts.spliced_inverse]
  case commute =>
    intro document first second afterFirst afterSecond hafterFirst hafterSecond hle
    obtain ⟨front, middle, back, hfirst⟩ := (fits_of_edited hafterFirst).exists_cuts
    obtain ⟨longer, taken, rest, hsecond⟩ := (fits_of_edited hafterSecond).exists_cuts
    obtain ⟨gap, rfl, rfl⟩ := hfirst.exists_gap hsecond hle
    have hforward : (second.movedBy first).Fits afterFirst.source := by
      rw [source_of_edited htrees hafterFirst]
      exact (hfirst.movedBy hsecond).fits
    have hbackward : first.Fits afterSecond.source := by
      rw [source_of_edited htrees hafterSecond]
      exact (hfirst.after hsecond).fits
    obtain ⟨forward, hforwardEdited, hforwardSource⟩ := exists_edited_of_fits htrees hforward
    obtain ⟨backward, hbackwardEdited, hbackwardSource⟩ := exists_edited_of_fits htrees hbackward
    refine ⟨forward, backward, hforwardEdited, hbackwardEdited, ?_⟩
    rw [hforwardSource, hbackwardSource, source_of_edited htrees hafterFirst,
      source_of_edited htrees hafterSecond, hfirst.spliced_comm hsecond]

/-! ### A label replaced and a line feed taken away -/

def labelParse (stop size : Nat) : ParseTree :=
  [⟨0, "config_file", ⟨0, size⟩, true, false, false, false⟩,
    ⟨1, "body", ⟨0, stop⟩, true, false, false, false⟩,
    ⟨2, "attribute", ⟨0, stop⟩, true, false, false, false⟩,
    ⟨3, "identifier", ⟨0, 1⟩, true, false, false, false⟩,
    ⟨3, "=", ⟨2, 3⟩, false, false, false, false⟩,
    ⟨3, "expression", ⟨4, stop⟩, true, false, false, false⟩,
    ⟨4, "literal_value", ⟨4, stop⟩, true, false, false, false⟩,
    ⟨5, "string_lit", ⟨4, stop⟩, true, false, false, false⟩,
    ⟨6, "quoted_template_start", ⟨4, 5⟩, true, false, false, false⟩,
    ⟨6, "template_literal", ⟨5, stop - 1⟩, true, false, false, false⟩,
    ⟨6, "quoted_template_end", ⟨stop - 1, stop⟩, true, false, false, false⟩]

/-- Parses an attribute with a label that is not empty, alone in its source. -/
def labelParser : Reparser := fun _ _ source =>
  .ok (labelParse (Text.byteLength (Text.trimEnd source)) (Text.byteLength source))

def labelled : Document :=
  ⟨"a = \"😀\"\n".toList, labelParse 10 11⟩

theorem edits_splice_labelled :
    labelParser.FindsTrees ∧
      labelParser.edited labelled ⟨⟨5, 9⟩, ['z']⟩ = .ok ⟨"a = \"z\"\n".toList, labelParse 7 8⟩ ∧
      labelParser.edited labelled ⟨⟨10, 11⟩, []⟩ = .ok ⟨"a = \"😀\"".toList, labelParse 10 10⟩ ∧
      labelParser.edited labelled ⟨⟨5, 7⟩, []⟩ = .error (.editOutside 5 7 11) ∧
      (∃ restored, labelParser.edited ⟨"a = \"z\"\n".toList, labelParse 7 8⟩
        ⟨⟨5, 6⟩, ['😀']⟩ = .ok restored ∧ restored.source = labelled.source) ∧
      (∃ forward backward,
        labelParser.edited ⟨"a = \"z\"\n".toList, labelParse 7 8⟩ ⟨⟨7, 8⟩, []⟩ = .ok forward ∧
        labelParser.edited ⟨"a = \"😀\"".toList, labelParse 10 10⟩ ⟨⟨5, 9⟩, ['z']⟩ = .ok backward ∧
        forward.source = backward.source) := by
  have htrees : labelParser.FindsTrees := fun _ _ _ => ⟨_, rfl⟩
  have hfirst : labelParser.edited labelled ⟨⟨5, 9⟩, ['z']⟩ =
      .ok ⟨"a = \"z\"\n".toList, labelParse 7 8⟩ := rfl
  have hsecond : labelParser.edited labelled ⟨⟨10, 11⟩, []⟩ =
      .ok ⟨"a = \"😀\"".toList, labelParse 10 10⟩ := rfl
  obtain ⟨-, hrefused, -, hundone, hcommute⟩ := edits_splice labelParser htrees
  have hinside : ¬ Edit.Fits ⟨⟨5, 7⟩, []⟩ labelled.source := by decide
  exact ⟨htrees, hfirst, hsecond, hrefused labelled ⟨⟨5, 7⟩, []⟩ hinside,
    hundone labelled _ _ hfirst, hcommute labelled _ _ _ _ hfirst hsecond (by decide)⟩

end Reparser

end HclEdit
