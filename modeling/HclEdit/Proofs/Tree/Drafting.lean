import HclEdit.Proofs.Tree.Sketch
import Mathlib.Data.List.Basic
import Mathlib.Data.List.Induction

/-!
# Which calls build a tree

Whether a call breaks a rule can be told from the calls before it, without any array: they tell
which node is open and what has been described below it. A list of calls is accepted exactly if no
call breaks a rule, nothing is left open and something was added, and then the tree shows what the
calls describe. Otherwise the first rule broken is what is reported, whatever comes after.
-/

namespace HclEdit.Draft

/-- The node that is open after some calls, and what has been described below it so far. -/
def Holds (before : List Call) (kind : String) (span : Span) (below : List Sketch) : Prop :=
  ∃ outer inner, before = outer ++ .opening kind span :: inner ∧ Describes inner below

/-- The node that a call adds. -/
def Call.label? : Call → Option (String × Span)
  | .opening kind span => some (kind, span)
  | .leaf kind span => some (kind, span)
  | .closing => none

def Call.opens : Call → Bool
  | .opening _ _ => true
  | _ => false

def Call.closes : Call → Bool
  | .closing => true
  | _ => false

def LiesIn (source : Text) (span : Span) : Prop :=
  span.start ≤ span.stop ∧ span.stop ≤ Text.byteLength source

/-- A call breaks a rule after some other calls. Of several rules the first one counts. -/
inductive Breaks (source : Text) (before : List Call) : Call → DraftError → Prop where
  | outsideSource {next : Call} {kind : String} {span : Span}
      (hnext : next.label? = some (kind, span)) (hlies : ¬ LiesIn source span) :
      Breaks source before next (.outsideSource span)
  | secondRoot {next : Call} {kind : String} {span : Span} {sketches : List Sketch}
      (hnext : next.label? = some (kind, span)) (hlies : LiesIn source span)
      (hbefore : Describes before sketches) (hsketches : sketches ≠ []) :
      Breaks source before next .secondRoot
  | escapesParent {next : Call} {kind parentKind : String} {span parentSpan : Span}
      {below : List Sketch} (hnext : next.label? = some (kind, span)) (hlies : LiesIn source span)
      (hholds : Holds before parentKind parentSpan below) (hwithin : ¬ span.Within parentSpan) :
      Breaks source before next (.escapesParent span parentKind parentSpan)
  | overlapsSibling {next : Call} {kind parentKind : String} {span parentSpan : Span}
      {below : List Sketch} {sibling : Sketch} (hnext : next.label? = some (kind, span))
      (hlies : LiesIn source span) (hholds : Holds before parentKind parentSpan below)
      (hwithin : span.Within parentSpan) (hsibling : below.getLast? = some sibling)
      (hbehind : span.start < sibling.span.stop) :
      Breaks source before next (.overlapsSibling span sibling.kind sibling.span)
  | unmatchedClose {sketches : List Sketch} (hbefore : Describes before sketches) :
      Breaks source before .closing .unmatchedClose

def Unbroken (source : Text) (calls : List Call) : Prop :=
  ∀ before next rest error, calls = before ++ next :: rest → ¬ Breaks source before next error

def Matched (calls : List Call) : Prop :=
  ∀ before rest, calls = before ++ .closing :: rest →
    ∃ kind span below, Holds before kind span below

/-- Calls that describe a tree over a source. Every closing has a node to close and nothing is left
open; the first call adds a node and no later one does while nothing is open; every span lies in the
source and in the span of the open node, and does not start before the last node below that one
ends. -/
structure WellFormed (source : Text) (calls : List Call) : Prop where
  matched : Matched calls
  closed : ∀ kind span below, ¬ Holds calls kind span below
  first : ∃ next rest label, calls = next :: rest ∧ next.label? = some label
  alone : ∀ before next rest label sketches, calls = before ++ next :: rest →
    next.label? = some label → Describes before sketches → before = []
  lies : ∀ before next rest kind span, calls = before ++ next :: rest →
    next.label? = some (kind, span) → LiesIn source span
  within : ∀ before next rest kind span parentKind parentSpan below,
    calls = before ++ next :: rest → next.label? = some (kind, span) →
      Holds before parentKind parentSpan below → span.Within parentSpan
  behind : ∀ before next rest kind span parentKind parentSpan below sibling,
    calls = before ++ next :: rest → next.label? = some (kind, span) →
      Holds before parentKind parentSpan below → below.getLast? = some sibling →
        sibling.span.stop ≤ span.start

/-! ### What is open after some calls -/

theorem Matched.of_append {front back : List Call} (hmatched : Matched (front ++ back)) :
    Matched front := by
  rintro before rest rfl
  exact hmatched before (rest ++ back) (by simp)

theorem Matched.describes_or_holds {calls : List Call} (hmatched : Matched calls) :
    (∃ sketches, Describes calls sketches) ∨ ∃ kind span below, Holds calls kind span below := by
  induction hlength : calls.length using Nat.strongRecOn generalizing calls with
  | ind length ih =>
      rcases List.eq_nil_or_concat' calls with rfl | ⟨front, next, rfl⟩
      · exact .inl ⟨[], .nil⟩
      · have hfront := ih front.length (by simp [← hlength]) hmatched.of_append rfl
        cases next with
        | opening kind span => exact .inr ⟨kind, span, [], front, [], rfl, .nil⟩
        | leaf kind span =>
            rcases hfront with ⟨sketches, hsketches⟩ |
              ⟨outerKind, outerSpan, below, outer, inner, rfl, hinner⟩
            · exact .inl ⟨_, hsketches.leaf kind span⟩
            · exact .inr ⟨outerKind, outerSpan, _, outer, _, by simp, hinner.leaf kind span⟩
        | closing =>
            -- What counts from here on is what came before the node that is closed, hence the
            -- induction on the length.
            obtain ⟨kind, span, below, outer, inner, rfl, hinner⟩ := hmatched front [] rfl
            have houter := ih outer.length (by simp [← hlength])
              (hmatched.of_append.of_append) rfl
            rcases houter with ⟨sketches, hsketches⟩ |
              ⟨outerKind, outerSpan, around, outer, beside, rfl, hbeside⟩
            · exact .inl ⟨_, by simpa using hsketches.whole kind span hinner⟩
            · exact .inr ⟨outerKind, outerSpan, _, outer, _, by simp,
                hbeside.whole kind span hinner⟩

/-! ### What a draft knows of it -/

section State

variable (source : Text) {before : List Call}

def after (source : Text) (calls : List Call) : Draft :=
  calls.foldl Draft.call (.new source)

theorem arranged_after (calls : List Call) :
    (after source calls).layout.Arranged :=
  have hempty : (Draft.new source).layout.Arranged := Layout.arranged_empty
  arranged_foldl_call hempty calls

theorem source_after (calls : List Call) :
    (after source calls).source = source := by
  have hcalls : ∀ draft : Draft, (calls.foldl Draft.call draft).source = draft.source := by
    induction calls with
    | nil => exact fun _ => rfl
    | cons next rest ih => exact fun draft => ih (draft.call next)
  exact hcalls (.new source)

theorem Describes.path_after {sketches : List Sketch} (hbefore : Describes before sketches) :
    (after source before).layout.path = [] :=
  have hempty : (Draft.new source).layout.Arranged := Layout.arranged_empty
  (hbefore.laysOut hempty).path_eq

/-- The sketched nodes are those without a parent. -/
theorem Describes.shows_after {sketches : List Sketch} (hbefore : Describes before sketches) :
    (after source before).soFar.ShowsAll (after source before).layout.current sketches := by
  have hempty : (Draft.new source).layout.Arranged := Layout.arranged_empty
  obtain ⟨ids, hcurrent, -, hshows⟩ := (hbefore.laysOut hempty).shown
  rw [show (Draft.new source).layout.current = [] from rfl, List.nil_append] at hcurrent
  rw [after, hcurrent]
  exact hshows

theorem Describes.isEmpty_after {sketches : List Sketch} (hbefore : Describes before sketches) :
    (after source before).layout.nodes.isEmpty = true ↔ sketches = [] := by
  constructor
  · intro hempty
    have hshows := (hbefore.shows_after source).length_eq
    have hsize : (after source before).layout.nodes.size = 0 := by simpa using hempty
    rw [Layout.current, hsize] at hshows
    exact List.eq_nil_of_length_eq_zero hshows.symm
  · rintro rfl
    rw [hbefore.eq_nil_iff.2 rfl]
    rfl

/-- The open node has been entered last, and shows what has been described below it. -/
theorem Holds.shows_after {kind : String} {span : Span} {below : List Sketch}
    (hholds : Holds before kind span below) :
    ∃ id, (after source before).layout.path.head? = some id ∧
      (after source before).soFar.kind id = kind ∧ (after source before).soFar.span id = span ∧
      (after source before).soFar.ShowsAll ((after source before).soFar.children id) below := by
  obtain ⟨outer, inner, rfl, hinner⟩ := hholds
  have houter := arranged_after source outer
  have hopened := arranged_call houter (.opening kind span)
  have hsplit : after source (outer ++ .opening kind span :: inner) =
      inner.foldl Draft.call ((after source outer).call (.opening kind span)) := by
    rw [after, List.foldl_append, List.foldl_cons]
    rfl
  have hextends := extends_foldl_call ((after source outer).call (.opening kind span)) inner
  have hlaid := hinner.laysOut hopened
  rw [← hsplit] at hextends hlaid
  obtain ⟨ids, hcurrent, -, hshows⟩ := hlaid.shown
  obtain ⟨position, hnode⟩ := (after source outer).layout.node_add_self kind span true
  have hlt : (after source outer).layout.nodes.size <
      ((after source outer).call (.opening kind span)).layout.nodes.size :=
    Nat.lt_of_lt_of_eq (Nat.lt_succ_self _) (Layout.size_add _ kind span true).symm
  have hhead : (after source (outer ++ .opening kind span :: inner)).layout.path.head? =
      some (after source outer).layout.nodes.size := by
    rw [hlaid.path_eq]
    rfl
  refine ⟨(after source outer).layout.nodes.size, hhead, ?_, ?_, ?_⟩
  · exact (hextends.kind_eq _ hlt).trans (congrArg Node.kind hnode)
  · exact (hextends.span_eq _ hlt).trans (congrArg Node.span hnode)
  · have hchildren := (arranged_after source _).toLinked.current_eq_children hhead
    have hnone : ((after source outer).call (.opening kind span)).layout.current = [] :=
      houter.toLinked.current_enter kind span true
    rw [hnone, List.nil_append] at hcurrent
    rw [show (after source _).soFar.children _ = ids from hchildren.symm.trans hcurrent]
    exact hshows

theorem Describes.not_holds {sketches : List Sketch} (hbefore : Describes before sketches)
    {kind : String} {span : Span} {below : List Sketch} : ¬ Holds before kind span below := by
  intro hholds
  obtain ⟨id, hhead, -⟩ := hholds.shows_after []
  rw [hbefore.path_after] at hhead
  exact absurd hhead nofun

end State

/-! ### Which error a call gives -/

section Error

variable {source : Text} {before : List Call} {next : Call} {kind : String} {span : Span}

theorem callError?_of_label (draft : Draft) (hnext : next.label? = some (kind, span)) :
    draft.callError? next = draft.spanError? span := by
  cases next with
  | opening => cases hnext; rfl
  | leaf => cases hnext; rfl
  | closing => exact absurd hnext nofun

theorem liesIn_iff : LiesIn source span ↔
    ¬ (span.stop < span.start ∨ Text.byteLength source < span.stop) := by
  unfold LiesIn
  omega

theorem spanError?_of_not_liesIn (hlies : ¬ LiesIn source span) :
    (after source before).spanError? span = some (.outsideSource span) := by
  rw [liesIn_iff, Decidable.not_not] at hlies
  rw [spanError?, source_after]
  exact if_pos hlies

theorem spanError?_of_describes {sketches : List Sketch} (hlies : LiesIn source span)
    (hbefore : Describes before sketches) :
    (after source before).spanError? span =
      if sketches.isEmpty then none else some .secondRoot := by
  have hinside := liesIn_iff.1 hlies
  have hempty := hbefore.isEmpty_after source
  rw [spanError?, source_after]
  simp [hinside, hbefore.path_after, hempty]

theorem spanError?_of_holds {parentKind : String} {parentSpan : Span} {below : List Sketch}
    (hlies : LiesIn source span) (hholds : Holds before parentKind parentSpan below) :
    (after source before).spanError? span =
      if ¬ span.Within parentSpan then some (.escapesParent span parentKind parentSpan)
      else below.getLast?.bind fun sibling =>
        if span.start < sibling.span.stop then
          some (.overlapsSibling span sibling.kind sibling.span)
        else none := by
  have hinside := liesIn_iff.1 hlies
  obtain ⟨id, hhead, hkind, hspan, hshows⟩ := hholds.shows_after source
  have hparentKind : ((after source before).layout.nodes[id]?.getD default).kind = parentKind :=
    hkind
  have hparentSpan : ((after source before).layout.nodes[id]?.getD default).span = parentSpan :=
    hspan
  rw [spanError?, source_after]
  simp only [hinside, if_false, hhead, hparentKind, hparentSpan]
  by_cases hwithin : span.Within parentSpan
  · rw [if_neg (not_not_intro hwithin), if_neg (not_not_intro hwithin)]
    rcases hshows.getLast? with ⟨hnone, hbelow⟩ | ⟨last, sibling, hlast, hsibling, hshown⟩
    · rw [show ((after source before).layout.nodes[id]?.getD default).children.getLast? = none from
        hnone, hbelow]
      rfl
    · rw [show ((after source before).layout.nodes[id]?.getD default).children.getLast? =
        some last from hlast, hsibling]
      dsimp only [Option.bind_some]
      rw [← hshown.kind_eq, ← hshown.span_eq]
      rfl
  · rw [if_pos hwithin, if_pos hwithin]

/-- The rule that a call breaks is the error that it gives. -/
theorem callError?_of_breaks {error : DraftError} (hbreaks : Breaks source before next error) :
    (after source before).callError? next = some error := by
  cases hbreaks with
  | outsideSource hnext hlies =>
      rw [callError?_of_label _ hnext, spanError?_of_not_liesIn hlies]
  | secondRoot hnext hlies hbefore hsketches =>
      rw [callError?_of_label _ hnext, spanError?_of_describes hlies hbefore]
      simp [hsketches]
  | escapesParent hnext hlies hholds hwithin =>
      rw [callError?_of_label _ hnext, spanError?_of_holds hlies hholds, if_pos hwithin]
  | overlapsSibling hnext hlies hholds hwithin hsibling hbehind =>
      rw [callError?_of_label _ hnext, spanError?_of_holds hlies hholds,
        if_neg (not_not_intro hwithin), hsibling]
      exact if_pos hbehind
  | unmatchedClose hbefore =>
      rw [callError?, hbefore.path_after]
      rfl

theorem Describes.breaks_of_spanError? {sketches : List Sketch} {error : DraftError}
    (hbefore : Describes before sketches) (hnext : next.label? = some (kind, span))
    (hlies : LiesIn source span) (herror : (after source before).spanError? span = some error) :
    Breaks source before next error := by
  rw [spanError?_of_describes hlies hbefore] at herror
  split at herror
  · exact absurd herror nofun
  · next hsketches =>
      obtain rfl := Option.some.inj herror
      exact .secondRoot hnext hlies hbefore (by simpa using hsketches)

theorem Holds.breaks_of_spanError? {parentKind : String} {parentSpan : Span}
    {below : List Sketch} {error : DraftError} (hholds : Holds before parentKind parentSpan below)
    (hnext : next.label? = some (kind, span)) (hlies : LiesIn source span)
    (herror : (after source before).spanError? span = some error) :
    Breaks source before next error := by
  rw [spanError?_of_holds hlies hholds] at herror
  split at herror
  · next hwithin =>
      obtain rfl := Option.some.inj herror
      exact .escapesParent hnext hlies hholds hwithin
  · next hwithin =>
      obtain ⟨sibling, hsibling, herror⟩ := Option.bind_eq_some_iff.1 herror
      split at herror
      · next hbehind =>
          obtain rfl := Option.some.inj herror
          exact .overlapsSibling hnext hlies hholds (Decidable.of_not_not hwithin) hsibling hbehind
      · exact absurd herror nofun

theorem Matched.breaks_of_closing (hmatched : Matched before) {error : DraftError}
    (herror : (after source before).callError? .closing = some error) :
    Breaks source before .closing error := by
  rcases hmatched.describes_or_holds with ⟨sketches, hbefore⟩ | ⟨kind, span, below, hholds⟩
  · rw [callError?, hbefore.path_after] at herror
    obtain rfl := Option.some.inj herror
    exact .unmatchedClose hbefore
  · obtain ⟨id, hhead, -⟩ := hholds.shows_after source
    obtain ⟨outer, hpath⟩ := List.head?_eq_some_iff.1 hhead
    rw [callError?, hpath] at herror
    exact absurd herror nofun

/-- A call gives no other error than for the rule that it breaks. -/
theorem Matched.breaks_of_callError? (hmatched : Matched before) {error : DraftError}
    (herror : (after source before).callError? next = some error) :
    Breaks source before next error := by
  cases hlabel : next.label? with
  | none =>
      cases next with
      | opening => exact absurd hlabel nofun
      | leaf => exact absurd hlabel nofun
      | closing => exact hmatched.breaks_of_closing herror
  | some label =>
      rw [callError?_of_label _ hlabel] at herror
      by_cases hlies : LiesIn source label.2
      · rcases hmatched.describes_or_holds with ⟨sketches, hbefore⟩ | ⟨kind, span, below, hholds⟩
        · exact hbefore.breaks_of_spanError? hlabel hlies herror
        · exact hholds.breaks_of_spanError? hlabel hlies herror
      · rw [spanError?_of_not_liesIn hlies] at herror
        obtain rfl := Option.some.inj herror
        exact .outsideSource hlabel hlies

end Error

/-! ### The first rule broken -/

section Calls

variable {source : Text} {calls : List Call}

theorem error_call (draft : Draft) (next : Call) :
    (draft.call next).error = draft.error.or (draft.callError? next) := rfl

theorem error_foldl_call {draft : Draft} {error : DraftError} (herror : draft.error = some error)
    (calls : List Call) : (calls.foldl Draft.call draft).error = some error := by
  induction calls generalizing draft with
  | nil => exact herror
  | cons next rest ih =>
      refine ih ?_
      rw [error_call, herror]
      rfl

theorem after_append_singleton (source : Text) (calls : List Call) (next : Call) :
    after source (calls ++ [next]) = (after source calls).call next := by
  rw [after, List.foldl_append]
  rfl

theorem error_after_eq_none_iff : (after source calls).error = none ↔
    ∀ before next rest, calls = before ++ next :: rest →
      (after source before).callError? next = none := by
  induction calls using List.reverseRecOn with
  | nil => simp [after, new]
  | append_singleton calls next ih =>
      rw [after_append_singleton, error_call, Option.or_eq_none_iff, ih]
      constructor
      · rintro ⟨hcalls, hnext⟩ before other rest hsplit
        rcases List.eq_nil_or_concat' rest with rfl | ⟨front, last, rfl⟩
        · obtain ⟨rfl, heq⟩ := List.append_inj' hsplit rfl
          cases heq
          exact hnext
        · have hsplit : calls ++ [next] = (before ++ other :: front) ++ [last] := by
            simpa using hsplit
          exact hcalls before other front (List.append_inj' hsplit rfl).1
      · intro hall
        refine ⟨fun before other rest hsplit => ?_, hall calls next [] rfl⟩
        exact hall before other (rest ++ [next]) (by simp [hsplit])

theorem Unbroken.of_append {front back : List Call} (hunbroken : Unbroken source (front ++ back)) :
    Unbroken source front := by
  rintro before next rest error rfl
  exact hunbroken before next (rest ++ back) error (by simp)

theorem Unbroken.matched (hunbroken : Unbroken source calls) : Matched calls := by
  induction hlength : calls.length using Nat.strongRecOn generalizing calls with
  | ind length ih =>
      rintro before rest rfl
      -- The calls in front are shorter, so with nothing left to close the closing breaks a rule.
      have hbefore := ih before.length (by simp [← hlength]) hunbroken.of_append rfl
      refine hbefore.describes_or_holds.resolve_left ?_
      rintro ⟨sketches, hsketches⟩
      exact hunbroken before .closing rest _ rfl (.unmatchedClose hsketches)

/-- No rule is broken exactly if the draft has no error. -/
theorem unbroken_iff : Unbroken source calls ↔ (after source calls).error = none := by
  rw [error_after_eq_none_iff]
  constructor
  · rintro hunbroken before next rest rfl
    refine Option.eq_none_iff_forall_ne_some.2 fun error herror => ?_
    exact hunbroken before next rest error rfl
      (hunbroken.of_append.matched.breaks_of_callError? herror)
  · intro hnone before next rest error hsplit hbreaks
    have herror := callError?_of_breaks hbreaks
    rw [hnone before next rest hsplit] at herror
    exact absurd herror nofun

theorem WellFormed.unbroken (hwellFormed : WellFormed source calls) : Unbroken source calls := by
  intro before next rest error hsplit hbreaks
  cases hbreaks with
  | outsideSource hnext hlies => exact hlies (hwellFormed.lies _ _ _ _ _ hsplit hnext)
  | secondRoot hnext hlies hbefore hsketches =>
      obtain rfl := hwellFormed.alone _ _ _ _ _ hsplit hnext hbefore
      exact hsketches (hbefore.eq_nil_iff.1 rfl)
  | escapesParent hnext hlies hholds hwithin =>
      exact hwithin (hwellFormed.within _ _ _ _ _ _ _ _ hsplit hnext hholds)
  | overlapsSibling hnext hlies hholds hwithin hsibling hbehind =>
      exact absurd hbehind (Nat.not_lt_of_le
        (hwellFormed.behind _ _ _ _ _ _ _ _ _ hsplit hnext hholds hsibling))
  | unmatchedClose hbefore =>
      obtain ⟨kind, span, below, hholds⟩ := hwellFormed.matched _ _ hsplit
      exact hbefore.not_holds hholds

end Calls

end HclEdit.Draft
