import HclEdit.Outline
import HclEdit.Proofs.Lines.Partition
import HclEdit.Proofs.Lists
import HclEdit.Proofs.Tree.Descendants
import HclEdit.Proofs.Tree.Sketch
import Mathlib.Data.List.TakeWhile

/-!
# The text between the quotes of a label

A tree may have nodes for the quotes of a label or not. The text between them is cut out of the
source at the delimiters in one case, and is what remains of the text of the label in the other. For
a label in quotes both are the text without its first and last byte, so two trees that differ in
nothing but the delimiters name their blocks alike.
-/

namespace HclEdit

namespace Text

theorem exists_eq_quoted {text : Text} (hhead : text.head? = some '"')
    (hlast : text.getLast? = some '"') (hlength : 2 ≤ byteLength text) :
    ∃ middle, text = '"' :: (middle ++ ['"']) := by
  obtain ⟨rest, rfl⟩ := List.head?_eq_some_iff.1 hhead
  rcases rest.eq_nil_or_concat with rfl | ⟨middle, last, rfl⟩
  · exact absurd hlength (by decide)
  · rw [List.concat_eq_append, ← List.cons_append, List.getLast?_concat] at hlast
    obtain rfl := Option.some.inj hlast
    exact ⟨middle, by rw [List.concat_eq_append]⟩

theorem dropQuotes_quoted (middle : Text) :
    dropQuoteAfter (dropQuoteBefore ('"' :: (middle ++ ['"']))) = middle := by
  simp [dropQuoteBefore, dropQuoteAfter]

end Text

namespace Tree

/-- A label of two bytes or more, the first and the last of which are quotes. -/
structure Quoted (tree : Tree) (label : NodeId) : Prop where
  two_le : (tree.span label).start + 2 ≤ (tree.span label).stop
  head?_eq : (tree.text label).head? = some '"'
  getLast?_eq : (tree.text label).getLast? = some '"'

/-- A delimiter is missing below the label. -/
def Undelimited (tree : Tree) (label : NodeId) : Prop :=
  tree.firstChild? label "quoted_template_start" = none ∨
    tree.firstChild? label "quoted_template_end" = none

/-- The first delimiters below the label are its first and its last byte. -/
def Delimited (tree : Tree) (label : NodeId) : Prop :=
  ∃ opening closing, tree.firstChild? label "quoted_template_start" = some opening ∧
    tree.firstChild? label "quoted_template_end" = some closing ∧
    tree.span opening = ⟨(tree.span label).start, (tree.span label).start + 1⟩ ∧
    tree.span closing = ⟨(tree.span label).stop - 1, (tree.span label).stop⟩

def DelimitersFit (tree : Tree) (label : NodeId) : Prop :=
  tree.Undelimited label ∨ tree.Delimited label

/-- What holds of all labels of a block. -/
def EachLabel (tree : Tree) (block : NodeId) (holds : NodeId → Prop) : Prop :=
  ∀ label ∈ tree.children block, tree.kind label = "string_lit" → holds label

/-- The label's name is the source between the first and the last byte of its span. -/
def Unquotes (tree : Tree) (label : NodeId) : Prop :=
  tree.text label = '"' :: (tree.labelName label ++ ['"']) ∧
    tree.source.slice? ((tree.span label).start + 1) ((tree.span label).stop - 1) =
      some (tree.labelName label)

variable {tree : Tree} {label : NodeId}

theorem slice?_span_of_head? {c : Char} (hhead : (tree.text label).head? = some c) :
    tree.source.slice? (tree.span label).start (tree.span label).stop = some (tree.text label) := by
  unfold text Text.slice at hhead ⊢
  cases hslice : tree.source.slice? (tree.span label).start (tree.span label).stop with
  | none => simp [hslice] at hhead
  | some whole => rfl

/-! ### One label -/

theorem Quoted.exists_middle (hquoted : tree.Quoted label) :
    ∃ middle, tree.text label = '"' :: (middle ++ ['"']) ∧
      tree.source.slice? ((tree.span label).start + 1) ((tree.span label).stop - 1) =
        some middle := by
  obtain ⟨front, back, hsource, hstart, hstop⟩ :=
    Text.slice?_eq_some_iff.1 (slice?_span_of_head? hquoted.head?_eq)
  have hlength : 2 ≤ Text.byteLength (tree.text label) := by
    have hle := hquoted.two_le
    omega
  obtain ⟨middle, hmiddle⟩ :=
    Text.exists_eq_quoted hquoted.head?_eq hquoted.getLast?_eq hlength
  have hquote : '"'.utf8Size = 1 := by decide
  rw [hmiddle] at hsource hstop
  simp only [Text.byteLength_cons, Text.byteLength_append, Text.byteLength_nil, hquote] at hstop
  refine ⟨middle, hmiddle, Text.slice?_eq_some_iff.2 ⟨front ++ ['"'], '"' :: back, ?_, ?_, ?_⟩⟩
  · rw [hsource]
    simp
  · rw [Text.byteLength_append, hstart, Text.byteLength_cons, hquote, Text.byteLength_nil]
  · omega

theorem Undelimited.labelName_eq (hundelimited : tree.Undelimited label) :
    tree.labelName label = (tree.text label).dropQuoteBefore.dropQuoteAfter := by
  unfold labelName
  split
  · next hopening hclosing =>
      rcases hundelimited with hnone | hnone
      · exact (Option.some_ne_none _ (hopening.symm.trans hnone)).elim
      · exact (Option.some_ne_none _ (hclosing.symm.trans hnone)).elim
  · rfl

theorem Delimited.labelName_eq (hdelimited : tree.Delimited label) :
    tree.labelName label =
      tree.source.slice ((tree.span label).start + 1) ((tree.span label).stop - 1) := by
  obtain ⟨opening, closing, hopening, hclosing, hfirst, hlast⟩ := hdelimited
  rw [labelName, hopening, hclosing]
  dsimp only
  rw [hfirst, hlast]

/-- Both ways lead to the text between the quotes. -/
theorem Quoted.unquotes (hquoted : tree.Quoted label)
    (hfit : tree.DelimitersFit label) : tree.Unquotes label := by
  obtain ⟨middle, htext, hslice⟩ := hquoted.exists_middle
  have hname : tree.labelName label = middle := by
    rcases hfit with hundelimited | hdelimited
    · rw [hundelimited.labelName_eq, htext, Text.dropQuotes_quoted]
    · rw [hdelimited.labelName_eq, Text.slice, hslice]
      rfl
  exact ⟨by rw [hname, htext], by rw [hname, hslice]⟩

/-! ### From the first child of a kind on -/

def childrenFrom (tree : Tree) (id : NodeId) (kind : String) : List NodeId :=
  (tree.children id).dropWhile fun child => !(tree.kind child == kind)

theorem childrenFrom_suffix (tree : Tree) (id : NodeId) (kind : String) :
    tree.childrenFrom id kind <:+ tree.children id :=
  List.dropWhile_suffix _

theorem firstChild?_eq_head?_childrenFrom (tree : Tree) (id : NodeId) (kind : String) :
    tree.firstChild? id kind = (tree.childrenFrom id kind).head? :=
  List.find?_eq_head?_dropWhile_not _ _

theorem kind_of_childrenFrom_eq_cons {id first : NodeId} {kind : String} {rest : List NodeId}
    (hfrom : tree.childrenFrom id kind = first :: rest) : tree.kind first = kind := by
  have hfirst : tree.firstChild? id kind = some first := by
    rw [firstChild?_eq_head?_childrenFrom, hfrom, List.head?_cons]
  have hkind := List.find?_some (p := fun child => tree.kind child == kind) hfirst
  exact eq_of_beq hkind

/-- The name of a block as its children give it from the first label on. -/
theorem Arranged.nameOfBlock?_eq (harranged : tree.Arranged) (block : NodeId) :
    tree.nameOfBlock? block =
      match tree.childrenFrom block "string_lit" with
      | [] => tree.identifier? block
      | first :: rest =>
          match rest.head?.filter (tree.kind · == "string_lit") with
          | none => some (tree.labelName first)
          | some second => some (tree.labelName first ++ ' ' :: tree.labelName second) := by
  obtain ⟨before, hchildren⟩ := tree.childrenFrom_suffix block "string_lit"
  rw [nameOfBlock?, firstChild?_eq_head?_childrenFrom]
  cases hfrom : tree.childrenFrom block "string_lit" with
  | nil => rfl
  | cons first rest =>
      rw [hfrom] at hchildren
      have hnext := harranged.nextSibling?_of_children_eq hchildren.symm
      rw [List.head?_cons]
      dsimp only
      generalize tree.nextSibling? first = next at hnext ⊢
      subst hnext
      rfl

/-! ### The labels of a block -/

/-- The node has the same kind and span as one of another tree, whatever lies below them. -/
def Matches (left right : Tree) (id other : NodeId) : Prop :=
  left.kind id = right.kind other ∧ left.span id = right.span other

theorem Matches.of_eq {left right : Tree} {id other : NodeId} {kind : String} {span : Span}
    (hid : left.kind id = kind ∧ left.span id = span)
    (hother : right.kind other = kind ∧ right.span other = span) : left.Matches right id other :=
  ⟨hid.1.trans hother.1.symm, hid.2.trans hother.2.symm⟩

section Matching

variable {left right : Tree} (hsource : left.source = right.source)
include hsource

theorem Matches.text_eq {id other : NodeId} (hmatches : left.Matches right id other) :
    left.text id = right.text other := by
  rw [text, text, hsource, hmatches.2]

theorem Matches.quoted {label other : NodeId} (hmatches : left.Matches right label other)
    (hquoted : left.Quoted label) : right.Quoted other where
  two_le := hmatches.2 ▸ hquoted.two_le
  head?_eq := hmatches.text_eq hsource ▸ hquoted.head?_eq
  getLast?_eq := hmatches.text_eq hsource ▸ hquoted.getLast?_eq

theorem Matches.labelName_eq {label other : NodeId} (hmatches : left.Matches right label other)
    (hleft : left.Unquotes label) (hright : right.Unquotes other) :
    left.labelName label = right.labelName other := by
  have hslice := hright.2
  rw [← hmatches.2, ← hsource] at hslice
  exact Option.some.inj (hleft.2.symm.trans hslice)

variable {id other : NodeId}
  (hchildren : List.Forall₂ (left.Matches right) (left.children id) (right.children other))
include hchildren

omit hsource in
theorem matches_childrenFrom (kind : String) :
    List.Forall₂ (left.Matches right) (left.childrenFrom id kind) (right.childrenFrom other kind) :=
  forall₂_dropWhile hchildren fun _ _ hmatches => by rw [hmatches.1]

theorem identifier?_eq_of_matches : left.identifier? id = right.identifier? other := by
  have hfrom := matches_childrenFrom hchildren "identifier"
  rw [identifier?, identifier?, firstChild?_eq_head?_childrenFrom,
    firstChild?_eq_head?_childrenFrom]
  generalize left.childrenFrom id "identifier" = found at hfrom ⊢
  generalize right.childrenFrom other "identifier" = twins at hfrom ⊢
  cases hfrom with
  | nil => rfl
  | cons hmatches => exact congrArg some (hmatches.text_eq hsource)

theorem nameOfBlock?_eq_of_matches (hleft : left.Arranged) (hright : right.Arranged)
    (hname : ∀ label ∈ left.children id, ∀ twin ∈ right.children other,
      left.Matches right label twin → left.kind label = "string_lit" →
      left.labelName label = right.labelName twin) :
    left.nameOfBlock? id = right.nameOfBlock? other := by
  have hmatches := matches_childrenFrom hchildren "string_lit"
  have hmem := (left.childrenFrom_suffix id "string_lit").subset
  have hmemTwin := (right.childrenFrom_suffix other "string_lit").subset
  rw [hleft.nameOfBlock?_eq, hright.nameOfBlock?_eq]
  cases hfound : left.childrenFrom id "string_lit" with
  | nil =>
      rw [hfound, List.forall₂_nil_left_iff] at hmatches
      rw [hmatches]
      exact identifier?_eq_of_matches hsource hchildren
  | cons first rest =>
      rw [hfound] at hmatches hmem
      obtain ⟨twin, more, hfirst, hrest, hfoundTwin⟩ := List.forall₂_cons_left_iff.1 hmatches
      rw [hfoundTwin] at hmemTwin ⊢
      have hnameFirst := hname first (hmem List.mem_cons_self) twin
        (hmemTwin List.mem_cons_self) hfirst (kind_of_childrenFrom_eq_cons hfound)
      dsimp only
      cases hrest with
      | nil => exact congrArg some hnameFirst
      | @cons second twinOfSecond _ _ hsecond _ =>
          rw [List.head?_cons, List.head?_cons, Option.filter_some, Option.filter_some,
            ← hsecond.1]
          by_cases hkind : left.kind second = "string_lit"
          · have hnameSecond := hname second (hmem (.tail _ List.mem_cons_self)) twinOfSecond
              (hmemTwin (.tail _ List.mem_cons_self)) hsecond hkind
            rw [if_pos (beq_iff_eq.2 hkind), if_pos (beq_iff_eq.2 hkind)]
            dsimp only
            rw [hnameFirst, hnameSecond]
          · rw [if_neg fun heq => hkind (eq_of_beq heq), if_neg fun heq => hkind (eq_of_beq heq)]
            exact congrArg some hnameFirst

theorem name?_eq_of_matches (hleft : left.Arranged) (hright : right.Arranged)
    (hkind : left.kind id = right.kind other)
    (hlabels : left.EachLabel id fun label => left.Quoted label ∧ left.DelimitersFit label)
    (htwins : right.EachLabel other right.DelimitersFit) : left.name? id = right.name? other := by
  rw [name?, name?, definition?, definition?, hkind]
  split
  · rfl
  · exact identifier?_eq_of_matches hsource hchildren
  · apply nameOfBlock?_eq_of_matches hsource hchildren hleft hright
    intro label hlabel twin htwin hmatches hlabelKind
    obtain ⟨hquoted, hway⟩ := hlabels label hlabel hlabelKind
    have hwayTwin := htwins twin htwin (hmatches.1 ▸ hlabelKind)
    exact hmatches.labelName_eq hsource (hquoted.unquotes hway)
      ((hmatches.quoted hsource hquoted).unquotes hwayTwin)

end Matching

end Tree

/-! ### Leaving the delimiters out -/

namespace Sketch

def isDelimiter (sketch : Sketch) : Bool :=
  sketch.kind == "quoted_template_start" || sketch.kind == "quoted_template_end"

mutual

/-- The same nodes, without the delimiters right below labels. -/
def withoutDelimiters : Sketch → Sketch
  | .node kind span below =>
      .node kind span
        (if kind = "string_lit" then (allWithoutDelimiters below).filter (!·.isDelimiter)
        else allWithoutDelimiters below)

def allWithoutDelimiters : List Sketch → List Sketch
  | [] => []
  | sketch :: rest => sketch.withoutDelimiters :: allWithoutDelimiters rest

end

theorem kind_withoutDelimiters (sketch : Sketch) : sketch.withoutDelimiters.kind = sketch.kind := by
  cases sketch
  rfl

theorem span_withoutDelimiters (sketch : Sketch) : sketch.withoutDelimiters.span = sketch.span := by
  cases sketch
  rfl

theorem allWithoutDelimiters_eq_map (sketches : List Sketch) :
    allWithoutDelimiters sketches = sketches.map withoutDelimiters := by
  induction sketches with
  | nil => rfl
  | cons sketch rest ih => rw [allWithoutDelimiters, ih, List.map_cons]

end Sketch

namespace Tree

theorem Shows.undelimited {tree : Tree} {label : NodeId} {sketch : Sketch}
    (hshows : tree.Shows label sketch.withoutDelimiters) (hkind : tree.kind label = "string_lit") :
    tree.Undelimited label := by
  cases sketch with
  | node kind span below =>
      obtain ⟨-, hkindEq, -, hbelow⟩ := hshows
      rw [if_pos (hkindEq.symm.trans hkind)] at hbelow
      -- Both delimiters are gone; that the opening one is gone is enough.
      refine .inl (List.find?_eq_none.2 fun child hchild hstart => ?_)
      obtain ⟨shown, hshown, hchildShows⟩ := hbelow.exists_of_mem hchild
      have hkept := (List.mem_filter.1 hshown).2
      simp [Sketch.isDelimiter, ← hchildShows.kind_eq, eq_of_beq hstart] at hkept

theorem ShowsAll.matches {full bare : Tree} {ids others : List NodeId} {sketches : List Sketch}
    (hids : full.ShowsAll ids sketches)
    (hothers : bare.ShowsAll others (Sketch.allWithoutDelimiters sketches)) :
    List.Forall₂ (full.Matches bare) ids others := by
  induction sketches generalizing ids others with
  | nil =>
      obtain rfl := hids
      obtain rfl := hothers
      exact .nil
  | cons sketch rest ih =>
      obtain ⟨id, ids, rfl, hid, hids⟩ := hids
      obtain ⟨other, others, rfl, hother, hothers⟩ := hothers
      have hkind := hother.kind_eq.trans sketch.kind_withoutDelimiters
      have hspan := hother.span_eq.trans sketch.span_withoutDelimiters
      exact .cons (.of_eq ⟨hid.kind_eq, hid.span_eq⟩ ⟨hkind, hspan⟩) (ih hids hothers)

section Without

variable {full bare : Tree} {block other : NodeId} {sketch : Sketch}
  (hblock : full.Shows block sketch) (hother : bare.Shows other sketch.withoutDelimiters)
  (hkind : sketch.kind = "block")
include hother hkind

theorem Shows.children_withoutDelimiters {kind : String} {span : Span} {below : List Sketch}
    (hsketch : sketch = .node kind span below) :
    bare.ShowsAll (bare.children other) (Sketch.allWithoutDelimiters below) := by
  subst hsketch
  obtain ⟨-, -, -, hbelow⟩ := hother
  have hnoLabel : kind ≠ "string_lit" := by
    rw [show kind = "block" from hkind]
    decide
  rw [if_neg hnoLabel] at hbelow
  exact hbelow

include hblock in
theorem Shows.matches_children :
    List.Forall₂ (full.Matches bare) (full.children block) (bare.children other) := by
  cases sketch with
  | node kind span below =>
      obtain ⟨-, -, -, hbelow⟩ := hblock
      exact hbelow.matches (hother.children_withoutDelimiters hkind rfl)

theorem Shows.undelimited_labels : bare.EachLabel other bare.Undelimited := by
  intro label hlabel hlabelKind
  cases sketch with
  | node kind span below =>
      obtain ⟨shown, hshown, hlabelShows⟩ :=
        (hother.children_withoutDelimiters hkind rfl).exists_of_mem hlabel
      rw [Sketch.allWithoutDelimiters_eq_map] at hshown
      obtain ⟨whole, -, rfl⟩ := List.mem_map.1 hshown
      exact hlabelShows.undelimited hlabelKind

end Without

/-- **Labels are unquoted alike.** The name of a label in quotes is the source between the first and
the last byte of its span, with its delimiters there and without them. Blocks over one source whose
children have the same kinds and spans in two trees are therefore named alike, whichever labels have
delimiters in each of the trees, and so is a block in a tree and in one without the delimiters. -/
theorem labels_unquoted_alike :
    (∀ (tree : Tree) (label : NodeId), tree.Quoted label →
      tree.Undelimited label ∨ tree.Delimited label → tree.Unquotes label) ∧
    (∀ left right : Tree, left.WellMade → right.WellMade → left.source = right.source →
      ∀ block other, left.kind block = right.kind other →
      List.Forall₂ (left.Matches right) (left.children block) (right.children other) →
      (left.EachLabel block fun label => left.Quoted label ∧ left.DelimitersFit label) →
      right.EachLabel other right.DelimitersFit → left.name? block = right.name? other) ∧
    ∀ full bare : Tree, full.WellMade → bare.WellMade → full.source = bare.source →
      ∀ block other sketch, sketch.kind = "block" → full.Shows block sketch →
      bare.Shows other sketch.withoutDelimiters →
      (full.EachLabel block fun label => full.Quoted label ∧ full.DelimitersFit label) →
      full.name? block = bare.name? other := by
  refine ⟨fun tree label hquoted hfit => hquoted.unquotes hfit, ?matching, ?without⟩
  case matching =>
    intro left right hleft hright hsource block other hkind hchildren hlabels htwins
    exact name?_eq_of_matches hsource hchildren hleft.arranged hright.arranged hkind hlabels htwins
  case without =>
    intro full bare hfull hbare hsource block other sketch hkind hblock hother hlabels
    have hkindEq : full.kind block = bare.kind other := by
      rw [hblock.kind_eq, hother.kind_eq, sketch.kind_withoutDelimiters]
    have hchildren := hblock.matches_children hother hkind
    exact name?_eq_of_matches hsource hchildren hfull.arranged hbare.arranged hkindEq hlabels
      fun label hlabel hlabelKind => .inl (hother.undelimited_labels hkind label hlabel hlabelKind)

/-- A block with an escaped quote in its first label and nothing in its second one. -/
def escapedLabel : Text := "a \"é\\\"\" \"\"\x7b\x7d".toList

def delimitedBlock : Sketch :=
  .node "block" ⟨0, 13⟩
    [.node "identifier" ⟨0, 1⟩ [],
      .node "string_lit" ⟨2, 8⟩
        [.node "quoted_template_start" ⟨2, 3⟩ [], .node "template_literal" ⟨3, 7⟩ [],
          .node "quoted_template_end" ⟨7, 8⟩ []],
      .node "string_lit" ⟨9, 11⟩
        [.node "quoted_template_start" ⟨9, 10⟩ [], .node "quoted_template_end" ⟨10, 11⟩ []]]

def labelCalls (delimited : Bool) (span : Span) (inner : List Draft.Call) : List Draft.Call :=
  let first := Draft.Call.leaf "quoted_template_start" ⟨span.start, span.start + 1⟩
  let last := Draft.Call.leaf "quoted_template_end" ⟨span.stop - 1, span.stop⟩
  let below := if delimited then first :: inner ++ [last] else inner
  .opening "string_lit" span :: below ++ [.closing]

/-- The block, with the delimiters of either label or without them. -/
def blockCalls (first second : Bool) : List Draft.Call :=
  let firstCalls := labelCalls first ⟨2, 8⟩ [.leaf "template_literal" ⟨3, 7⟩]
  let secondCalls := labelCalls second ⟨9, 11⟩ []
  .opening "block" ⟨0, 13⟩ :: .leaf "identifier" ⟨0, 1⟩ :: firstCalls ++ secondCalls ++ [.closing]

def labelledTree (first second : Bool) : Tree :=
  ((blockCalls first second).foldl Draft.call (.new escapedLabel)).tree

theorem labels_unquoted_alike_escaped :
    (∀ first second,
      Tree.build escapedLabel (blockCalls first second) = .ok (labelledTree first second)) ∧
    (labelledTree true false).Unquotes 2 ∧ (labelledTree true false).Unquotes 6 ∧
    (labelledTree true true).name? 0 = some "é\\\" ".toList ∧
    (labelledTree true true).name? 0 = (labelledTree true false).name? 0 ∧
    (labelledTree true true).name? 0 = (labelledTree false false).name? 0 := by
  have hbuild : ∀ first second,
      Tree.build escapedLabel (blockCalls first second) = .ok (labelledTree first second) := by
    rintro (_ | _) (_ | _) <;> rfl
  have hsource : ∀ first second, (labelledTree first second).source = escapedLabel := by
    rintro (_ | _) (_ | _) <;> rfl
  have hkind : ∀ first second, (labelledTree first second).kind 0 = "block" := by
    rintro (_ | _) (_ | _) <;> rfl
  have hquoted : (labelledTree true false).Quoted 2 := ⟨by decide, rfl, rfl⟩
  have hempty : (labelledTree true false).Quoted 6 := ⟨by decide, rfl, rfl⟩
  have hdelimited : (labelledTree true false).Delimited 2 := ⟨3, 5, rfl, rfl, rfl, rfl⟩
  have hundelimited : (labelledTree true false).Undelimited 6 := .inl rfl
  have hidentifier : ∀ second, (labelledTree true second).kind 1 = "identifier" ∧
      (labelledTree true second).span 1 = ⟨0, 1⟩ := by
    rintro (_ | _) <;> exact ⟨rfl, rfl⟩
  have hfirst : ∀ second, (labelledTree true second).kind 2 = "string_lit" ∧
      (labelledTree true second).span 2 = ⟨2, 8⟩ := by
    rintro (_ | _) <;> exact ⟨rfl, rfl⟩
  have hsecond : ∀ second, (labelledTree true second).kind 6 = "string_lit" ∧
      (labelledTree true second).span 6 = ⟨9, 11⟩ := by
    rintro (_ | _) <;> exact ⟨rfl, rfl⟩
  have hnoLabel : ∀ second, (labelledTree true second).kind 1 ≠ "string_lit" := by
    intro second
    rw [(hidentifier second).1]
    decide
  have hchildren : ∀ second, (labelledTree true second).children 0 = [1, 2, 6] := by
    rintro (_ | _) <;> rfl
  have hlabels : (labelledTree true true).EachLabel 0 fun label =>
      (labelledTree true true).Quoted label ∧ (labelledTree true true).DelimitersFit label := by
    rw [EachLabel, hchildren, List.forall_mem_cons, List.forall_mem_cons, List.forall_mem_singleton]
    refine ⟨fun hkind => absurd hkind (hnoLabel true), fun _ => ?first, fun _ => ?second⟩
    case first => exact ⟨⟨by decide, rfl, rfl⟩, .inr ⟨3, 5, rfl, rfl, rfl, rfl⟩⟩
    case second => exact ⟨⟨by decide, rfl, rfl⟩, .inr ⟨7, 8, rfl, rfl, rfl, rfl⟩⟩
  have htwins : (labelledTree true false).EachLabel 0 (labelledTree true false).DelimitersFit := by
    rw [EachLabel, hchildren, List.forall_mem_cons, List.forall_mem_cons, List.forall_mem_singleton]
    exact ⟨fun hkind => absurd hkind (hnoLabel false), fun _ => .inr hdelimited,
      fun _ => .inl hundelimited⟩
  have hmatches : List.Forall₂ ((labelledTree true true).Matches (labelledTree true false))
      ((labelledTree true true).children 0) ((labelledTree true false).children 0) := by
    rw [hchildren, hchildren]
    exact .cons (.of_eq (hidentifier true) (hidentifier false))
      (.cons (.of_eq (hfirst true) (hfirst false))
        (.cons (.of_eq (hsecond true) (hsecond false)) .nil))
  have hfull : (labelledTree true true).Shows 0 delimitedBlock :=
    ⟨by decide, rfl, rfl, 1, [2, 6], rfl, ⟨by decide, rfl, rfl, rfl⟩, 2, [6], rfl,
      ⟨by decide, rfl, rfl, 3, [4, 5], rfl, ⟨by decide, rfl, rfl, rfl⟩, 4, [5], rfl,
        ⟨by decide, rfl, rfl, rfl⟩, 5, [], rfl, ⟨by decide, rfl, rfl, rfl⟩, rfl⟩, 6, [], rfl,
      ⟨by decide, rfl, rfl, 7, [8], rfl, ⟨by decide, rfl, rfl, rfl⟩, 8, [], rfl,
        ⟨by decide, rfl, rfl, rfl⟩, rfl⟩, rfl⟩
  have hbare : (labelledTree false false).Shows 0 delimitedBlock.withoutDelimiters :=
    ⟨by decide, rfl, rfl, 1, [2, 4], rfl, ⟨by decide, rfl, rfl, rfl⟩, 2, [4], rfl,
      ⟨by decide, rfl, rfl, 3, [], rfl, ⟨by decide, rfl, rfl, rfl⟩, rfl⟩, 4, [], rfl,
      ⟨by decide, rfl, rfl, rfl⟩, rfl⟩
  obtain ⟨hunquotes, hmatching, hwithout⟩ := labels_unquoted_alike
  have hname : (labelledTree true true).name? 0 = some "é\\\" ".toList := rfl
  have hcut := hunquotes (labelledTree true false) 2 hquoted (.inr hdelimited)
  have hstripped := hunquotes (labelledTree true false) 6 hempty (.inl hundelimited)
  refine ⟨hbuild, hcut, hstripped, hname, ?matching, ?without⟩
  case matching =>
    exact hmatching (labelledTree true true) (labelledTree true false) (.built (hbuild true true))
      (.built (hbuild true false)) ((hsource true true).trans (hsource true false).symm) 0 0
      ((hkind true true).trans (hkind true false).symm) hmatches hlabels htwins
  case without =>
    exact hwithout (labelledTree true true) (labelledTree false false) (.built (hbuild true true))
      (.built (hbuild false false)) ((hsource true true).trans (hsource false false).symm) 0 0
      delimitedBlock rfl hfull hbare hlabels

end Tree

end HclEdit
