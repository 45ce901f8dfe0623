import HclEdit.Proofs.Tree.Drafting

/-!
# What finishing gives

Finishing refuses a list of calls for the first rule broken, for what is left open, or for having
added nothing, and for nothing else. A tree that it gives holds the added nodes in the order of the
calls, and shows the one node that the calls describe.
-/

namespace HclEdit

namespace Tree

mutual

theorem Shows.unique {tree : Tree} : ∀ {sketch other : Sketch} {id : NodeId},
    tree.Shows id sketch → tree.Shows id other → sketch = other
  | .node _ _ _, .node _ _ _, _, ⟨_, hkind, hspan, hbelow⟩, ⟨_, hkind', hspan', hbelow'⟩ => by
      rw [← hkind, ← hkind', ← hspan, ← hspan', ShowsAll.unique hbelow hbelow']

theorem ShowsAll.unique {tree : Tree} : ∀ {sketches others : List Sketch} {ids : List NodeId},
    tree.ShowsAll ids sketches → tree.ShowsAll ids others → sketches = others
  | [], [], _, _, _ => rfl
  | [], _ :: _, _, hids, ⟨_, _, hothers, _⟩ => absurd (hids.symm.trans hothers) nofun
  | _ :: _, [], _, ⟨_, _, hids, _⟩, hothers => absurd (hothers.symm.trans hids) nofun
  | _ :: _, _ :: _, _, ⟨_, _, hids, hshows, hrest⟩, ⟨_, _, hothers, hshows', hrest'⟩ => by
      subst hids
      obtain ⟨rfl, rfl⟩ := List.cons.inj hothers
      rw [Shows.unique hshows hshows', ShowsAll.unique hrest hrest']

end

mutual

/-- Telling where subtrees end does not change what is shown. -/
theorem Shows.assemble (source : Text) {tree : Tree} : ∀ (sketch : Sketch) (id : NodeId),
    tree.Shows id sketch → (assemble source tree.nodes).Shows id sketch
  | .node _ _ below, id, ⟨hid, hkind, hspan, hbelow⟩ => by
      refine ⟨Nat.lt_of_lt_of_eq hid (size_assemble source).symm,
        (kind_assemble source).trans hkind, (span_assemble source).trans hspan, ?_⟩
      rw [children_assemble]
      exact ShowsAll.assemble source below _ hbelow

theorem ShowsAll.assemble (source : Text) {tree : Tree} :
    ∀ (sketches : List Sketch) (ids : List NodeId),
      tree.ShowsAll ids sketches → (assemble source tree.nodes).ShowsAll ids sketches
  | [], _, hids => hids
  | sketch :: sketches, _, ⟨id, rest, hids, hshows, hrest⟩ =>
      ⟨id, rest, hids, Shows.assemble source sketch id hshows,
        ShowsAll.assemble source sketches rest hrest⟩

end

end Tree

namespace Draft

/-- Calls describe the same nodes however they are taken apart. -/
theorem Describes.unique {calls : List Call} {sketches others : List Sketch}
    (hdescribes : Describes calls sketches) (hothers : Describes calls others) :
    sketches = others :=
  (hdescribes.shows_after []).unique (hothers.shows_after [])

section Calls

variable {source : Text} {calls : List Call}

/-! ### The nodes in the order of the calls -/

theorem kind_span_call_self (draft : Draft) {next : Call} {label : String × Span}
    (hnext : next.label? = some label) :
    (draft.call next).layout.nodes.size = draft.layout.nodes.size + 1 ∧
      ((draft.call next).soFar.kind draft.layout.nodes.size,
        (draft.call next).soFar.span draft.layout.nodes.size) = label := by
  obtain ⟨kind, span⟩ := label
  have hsize := Layout.size_add draft.layout kind span true
  obtain ⟨position, hnode⟩ := draft.layout.node_add_self kind span true
  have hlabel := congrArg (fun node : Node => (node.kind, node.span)) hnode
  cases next with
  | opening => cases hnext; exact ⟨hsize, hlabel⟩
  | leaf => cases hnext; exact ⟨hsize, hlabel⟩
  | closing => exact absurd hnext nofun

theorem labels_after (source : Text) (calls : List Call) :
    (List.range (after source calls).layout.nodes.size).map
        (fun id => ((after source calls).soFar.kind id, (after source calls).soFar.span id)) =
      calls.filterMap Call.label? := by
  induction calls using List.reverseRecOn with
  | nil => rfl
  | append_singleton calls next ih =>
      have hextends := (after source calls).extends_call next
      have hbefore : (List.range (after source calls).layout.nodes.size).map
            (fun id => (((after source calls).call next).soFar.kind id,
              ((after source calls).call next).soFar.span id)) =
          calls.filterMap Call.label? := by
        rw [← ih]
        refine List.map_congr_left fun id hid => ?_
        exact Prod.ext (hextends.kind_eq id (List.mem_range.1 hid))
          (hextends.span_eq id (List.mem_range.1 hid))
      rw [after_append_singleton, List.filterMap_append]
      cases hlabel : next.label? with
      | none =>
          have hsize : ((after source calls).call next).layout.nodes.size =
              (after source calls).layout.nodes.size := by
            cases next with
            | opening => exact absurd hlabel nofun
            | leaf => exact absurd hlabel nofun
            | closing => rfl
          rw [hsize, hbefore, List.filterMap_cons_none hlabel, List.filterMap_nil,
            List.append_nil]
      | some label =>
          obtain ⟨hsize, hself⟩ := kind_span_call_self (after source calls) hlabel
          rw [hsize, List.range_succ, List.map_append, hbefore, List.map_singleton, hself,
            List.filterMap_cons_some hlabel, List.filterMap_nil]

/-! ### What is left open -/

theorem Holds.path_after_ne (source : Text) {kind : String} {span : Span} {below : List Sketch}
    (hholds : Holds calls kind span below) : (after source calls).layout.path ≠ [] := by
  obtain ⟨id, hhead, -⟩ := hholds.shows_after source
  intro hpath
  rw [hpath] at hhead
  exact absurd hhead nofun

theorem Matched.path_after_eq_nil_iff (source : Text) (hmatched : Matched calls) :
    (after source calls).layout.path = [] ↔
      ∀ kind span below, ¬ Holds calls kind span below := by
  constructor
  · intro hpath kind span below hholds
    exact hholds.path_after_ne source hpath
  · intro hclosed
    rcases hmatched.describes_or_holds with ⟨sketches, hsketches⟩ | ⟨kind, span, below, hholds⟩
    · exact hsketches.path_after source
    · exact absurd hholds (hclosed kind span below)

/-- As many nodes are open as have been opened and not closed. -/
theorem Matched.length_path_after (source : Text) (hmatched : Matched calls) :
    (after source calls).layout.path.length + calls.countP Call.closes =
      calls.countP Call.opens := by
  induction calls using List.reverseRecOn with
  | nil => rfl
  | append_singleton calls next ih =>
      have hcalls := ih hmatched.of_append
      rw [after_append_singleton, List.countP_append, List.countP_append, ← hcalls]
      cases next with
      | opening kind span =>
          have hpath : ((after source calls).call (.opening kind span)).layout.path.length =
              (after source calls).layout.path.length + 1 := rfl
          rw [hpath, show [Call.opening kind span].countP Call.closes = 0 from rfl,
            show [Call.opening kind span].countP Call.opens = 1 from rfl]
          omega
      | leaf kind span =>
          have hpath : ((after source calls).call (.leaf kind span)).layout.path =
              (after source calls).layout.path := Layout.path_add _ kind span true
          rw [hpath]
          rfl
      | closing =>
          obtain ⟨kind, span, below, hholds⟩ := hmatched calls [] rfl
          have hpos := List.length_pos_iff.2 (hholds.path_after_ne source)
          have hpath : ((after source calls).call .closing).layout.path =
              (after source calls).layout.path.tail := rfl
          rw [hpath, List.length_tail, show [Call.closing].countP Call.closes = 1 from rfl,
            show [Call.closing].countP Call.opens = 0 from rfl]
          omega

theorem Matched.isEmpty_after (hmatched : Matched calls)
    (hpath : (after source calls).layout.path = []) :
    (after source calls).layout.nodes.isEmpty = true ↔ calls = [] := by
  rcases hmatched.describes_or_holds with ⟨sketches, hsketches⟩ | ⟨kind, span, below, hholds⟩
  · rw [hsketches.isEmpty_after source, hsketches.eq_nil_iff]
  · exact absurd hpath (hholds.path_after_ne source)

/-! ### Accepted calls -/

theorem Matched.label?_of_cons {next : Call} {rest : List Call}
    (hmatched : Matched (next :: rest)) : ∃ label, next.label? = some label := by
  cases next with
  | opening kind span => exact ⟨_, rfl⟩
  | leaf kind span => exact ⟨_, rfl⟩
  | closing =>
      obtain ⟨kind, span, below, hholds⟩ := hmatched [] rest rfl
      exact absurd hholds Describes.nil.not_holds

/-- Calls are well formed if none breaks a rule, nothing is left open and there are any. -/
theorem wellFormed_iff : WellFormed source calls ↔ Unbroken source calls ∧
    (∀ kind span below, ¬ Holds calls kind span below) ∧ calls ≠ [] := by
  constructor
  · intro hwellFormed
    obtain ⟨next, rest, label, rfl, -⟩ := hwellFormed.first
    exact ⟨hwellFormed.unbroken, hwellFormed.closed, List.cons_ne_nil next rest⟩
  · rintro ⟨hunbroken, hclosed, hcalls⟩
    have hlies : ∀ before next rest kind span, calls = before ++ next :: rest →
        next.label? = some (kind, span) → LiesIn source span := by
      intro before next rest kind span hsplit hnext
      by_contra hlies
      exact hunbroken before next rest _ hsplit (.outsideSource hnext hlies)
    have hwithin : ∀ before next rest kind span parentKind parentSpan below,
        calls = before ++ next :: rest → next.label? = some (kind, span) →
          Holds before parentKind parentSpan below → span.Within parentSpan := by
      intro before next rest kind span parentKind parentSpan below hsplit hnext hholds
      by_contra hwithin
      have hin := hlies before next rest kind span hsplit hnext
      exact hunbroken before next rest _ hsplit (.escapesParent hnext hin hholds hwithin)
    refine ⟨hunbroken.matched, hclosed, ?first, ?alone, hlies, hwithin, ?behind⟩
    case first =>
      obtain ⟨next, rest, rfl⟩ := List.exists_cons_of_ne_nil hcalls
      obtain ⟨label, hlabel⟩ := hunbroken.matched.label?_of_cons
      exact ⟨next, rest, label, rfl, hlabel⟩
    case alone =>
      intro before next rest label sketches hsplit hnext hbefore
      by_contra hne
      have hin := hlies before next rest label.1 label.2 hsplit hnext
      exact hunbroken before next rest _ hsplit
        (.secondRoot hnext hin hbefore fun hsketches => hne (hbefore.eq_nil_iff.2 hsketches))
    case behind =>
      intro before next rest kind span parentKind parentSpan below sibling hsplit hnext hholds
        hsibling
      by_contra hbehind
      have hin := hlies before next rest kind span hsplit hnext
      have hinParent := hwithin before next rest kind span _ _ below hsplit hnext hholds
      exact hunbroken before next rest _ hsplit
        (.overlapsSibling hnext hin hholds hinParent hsibling (Nat.lt_of_not_le hbehind))

theorem exists_build_eq_ok_iff :
    (∃ tree, Tree.build source calls = .ok tree) ↔ WellFormed source calls := by
  have hbuild : (∃ tree, Tree.build source calls = .ok tree) ↔
      (after source calls).error = none ∧ (after source calls).layout.path = [] ∧
        0 < (after source calls).layout.nodes.size := by
    constructor
    · rintro ⟨tree, hbuild⟩
      obtain ⟨herror, hpath, hsize, -⟩ := finish_eq_ok_iff.1 hbuild
      exact ⟨herror, hpath, hsize⟩
    · rintro ⟨herror, hpath, hsize⟩
      exact ⟨_, finish_eq_ok_iff.2 ⟨herror, hpath, hsize, rfl⟩⟩
  rw [hbuild, wellFormed_iff, ← unbroken_iff]
  refine and_congr_right fun hunbroken => ?_
  rw [← hunbroken.matched.path_after_eq_nil_iff source]
  refine and_congr_right fun hpath => ?_
  rw [Ne, ← hunbroken.matched.isEmpty_after hpath, Array.size_pos_iff, Array.isEmpty_iff]

/-! ### Refused calls -/

theorem build_of_breaks {before rest : List Call} {next : Call} {error : DraftError}
    (hbefore : Unbroken source before) (hbreaks : Breaks source before next error) :
    Tree.build source (before ++ next :: rest) = .error error := by
  have hnext : ((after source before).call next).error = some error := by
    rw [error_call, unbroken_iff.1 hbefore, callError?_of_breaks hbreaks]
    rfl
  have herror : ((before ++ next :: rest).foldl call (.new source)).error = some error := by
    rw [List.foldl_append, List.foldl_cons]
    exact error_foldl_call hnext rest
  rw [Tree.build, finish, herror]

theorem Unbroken.of_build_eq_error (hunbroken : Unbroken source calls) {error : DraftError}
    (hbuild : Tree.build source calls = .error error) :
    ((∃ kind span below, Holds calls kind span below) ∧
        error = .leftOpen (calls.countP Call.opens - calls.countP Call.closes)) ∨
      (calls = [] ∧ error = .noRoot) := by
  have hfinish : (after source calls).finish = .error error := hbuild
  rw [finish, unbroken_iff.1 hunbroken] at hfinish
  dsimp only at hfinish
  split at hfinish
  · next hpath =>
      obtain rfl := Except.error.inj hfinish
      have hlength := hunbroken.matched.length_path_after source
      refine .inl ⟨?_, congrArg DraftError.leftOpen (Nat.eq_sub_of_add_eq hlength)⟩
      refine hunbroken.matched.describes_or_holds.resolve_left ?_
      rintro ⟨sketches, hsketches⟩
      exact hpath (hsketches.path_after source)
  · next hpath =>
      split at hfinish
      · next hempty =>
          obtain rfl := Except.error.inj hfinish
          have hclosed := Decidable.of_not_not hpath
          exact .inr ⟨(hunbroken.matched.isEmpty_after hclosed).1 hempty, rfl⟩
      · exact absurd hfinish nofun

/-! ### Reading back -/

theorem current_after {tree : Tree} (hbuild : Tree.build source calls = .ok tree) :
    (after source calls).layout.current = [Tree.root] := by
  have harranged := Tree.arranged_build hbuild
  obtain ⟨-, hpath, hsize, rfl⟩ := finish_eq_ok_iff.1 hbuild
  change (after source calls).layout.path = [] at hpath
  change 0 < (after source calls).layout.nodes.size at hsize
  have hroot : ((after source calls).layout.node Tree.root).parent = none :=
    (Tree.parent?_assemble _).symm.trans harranged.parent?_root
  have hbelow : (List.range' 1 ((after source calls).layout.nodes.size - 1)).filter
      (fun id => ((after source calls).layout.node id).parent = none) = [] := by
    refine List.filter_eq_nil_iff.2 fun id hid => ?_
    obtain ⟨hpos, hlt⟩ := List.mem_range'_1.1 hid
    rw [Nat.add_sub_cancel' hsize] at hlt
    rw [decide_eq_true_iff]
    intro hparent
    refine Nat.ne_of_gt hpos (harranged.rooted id ?_ ((Tree.parent?_assemble _).trans hparent))
    exact Nat.lt_of_lt_of_eq hlt (Tree.size_assemble _).symm
  calc (after source calls).layout.current
      = (List.range' 0 (1 + ((after source calls).layout.nodes.size - 1))).filter
          (fun id => ((after source calls).layout.node id).parent = none) := by
        rw [Layout.current, hpath, List.range_eq_range', Nat.add_sub_cancel' hsize]
        rfl
    _ = [Tree.root] := by
        rw [← List.range'_append_1, List.filter_append, hbelow, List.append_nil]
        exact List.filter_cons_of_pos (decide_eq_true hroot)

/-- What has been built shows what the calls describe, and they describe nothing else. -/
theorem shows_build {tree : Tree} (hbuild : Tree.build source calls = .ok tree) :
    ∃ sketch, (∀ sketches, Describes calls sketches ↔ sketches = [sketch]) ∧
      tree.Shows Tree.root sketch := by
  have hwellFormed := exists_build_eq_ok_iff.1 ⟨tree, hbuild⟩
  have hcurrent := current_after hbuild
  obtain ⟨-, -, -, rfl⟩ := finish_eq_ok_iff.1 hbuild
  rcases hwellFormed.matched.describes_or_holds with
    ⟨sketches, hsketches⟩ | ⟨kind, span, below, hholds⟩
  · have hshows := hsketches.shows_after source
    rw [hcurrent] at hshows
    obtain ⟨sketch, rfl⟩ := List.length_eq_one_iff.1 hshows.length_eq.symm
    obtain ⟨id, rest, hids, hsketch, -⟩ := hshows
    obtain ⟨rfl, -⟩ := List.cons.inj hids
    refine ⟨sketch, fun others => ?_, hsketch.assemble _ _ _⟩
    constructor
    · exact fun hothers => hothers.unique hsketches
    · rintro rfl
      exact hsketches
  · exact absurd hholds (hwellFormed.closed kind span below)

/-- **Exactly the well-formed calls are accepted.** Other calls are refused for the first rule that
one of them breaks, or for what stays open, or for adding nothing. What is accepted can be read back
from the tree, in the order of the calls and as the node that they describe. -/
theorem build_accepts_wellFormed (source : Text) (calls : List Call) :
    ((∃ tree, Tree.build source calls = .ok tree) ↔ WellFormed source calls) ∧
    (∀ before next rest error, calls = before ++ next :: rest → Unbroken source before →
      Breaks source before next error → Tree.build source calls = .error error) ∧
    (Unbroken source calls → ∀ error, Tree.build source calls = .error error →
      ((∃ kind span below, Holds calls kind span below) ∧
          error = .leftOpen (calls.countP Call.opens - calls.countP Call.closes)) ∨
        (calls = [] ∧ error = .noRoot)) ∧
    (∀ tree, Tree.build source calls = .ok tree →
      tree.source = source ∧
      (List.range tree.size).map (fun id => (tree.kind id, tree.span id)) =
        calls.filterMap Call.label? ∧
      ∃ sketch, (∀ sketches, Describes calls sketches ↔ sketches = [sketch]) ∧
        tree.Shows Tree.root sketch) := by
  refine ⟨exists_build_eq_ok_iff, ?refused, ?incomplete, ?accepted⟩
  case refused =>
    rintro before next rest error rfl hbefore hbreaks
    exact build_of_breaks hbefore hbreaks
  case incomplete => exact fun hunbroken error hbuild => hunbroken.of_build_eq_error hbuild
  case accepted =>
    intro tree hbuild
    refine ⟨?_, ?_, shows_build hbuild⟩
    · obtain ⟨-, -, -, rfl⟩ := finish_eq_ok_iff.1 hbuild
      exact source_after source calls
    · obtain ⟨-, -, -, rfl⟩ := finish_eq_ok_iff.1 hbuild
      simp only [Tree.size_assemble, Tree.kind_assemble, Tree.span_assemble]
      exact labels_after source calls

/-- An attribute whose value begins before its name ends. -/
def overlappingCalls : List Call :=
  [.opening "attribute" ⟨0, 5⟩, .leaf "identifier" ⟨0, 3⟩, .leaf "number_lit" ⟨2, 5⟩]

/-- The overlap is reported whatever comes after; up to it the calls only have to be closed. -/
theorem build_overlapping :
    (∀ rest, Tree.build "abc=1".toList (overlappingCalls ++ rest) =
      .error (.overlapsSibling ⟨2, 5⟩ "identifier" ⟨0, 3⟩)) ∧
    WellFormed "abc=1".toList (overlappingCalls.take 2 ++ [.closing]) ∧
    ∃ tree sketch, Tree.build "abc=1".toList (overlappingCalls.take 2 ++ [.closing]) = .ok tree ∧
      Describes (overlappingCalls.take 2 ++ [.closing]) [sketch] ∧
      tree.Shows Tree.root sketch := by
  have hunbroken : Unbroken "abc=1".toList (overlappingCalls.take 2) := unbroken_iff.2 rfl
  have hholds : Holds (overlappingCalls.take 2) "attribute" ⟨0, 5⟩
      [.node "identifier" ⟨0, 3⟩ []] :=
    ⟨[], [.leaf "identifier" ⟨0, 3⟩], rfl, .leaf _ _ .nil⟩
  have hbreaks : Breaks "abc=1".toList (overlappingCalls.take 2) (.leaf "number_lit" ⟨2, 5⟩)
      (.overlapsSibling ⟨2, 5⟩ "identifier" ⟨0, 3⟩) :=
    .overlapsSibling rfl ⟨by decide, by decide⟩ hholds (by decide) rfl (by decide)
  have hbuild : Tree.build "abc=1".toList (overlappingCalls.take 2 ++ [.closing]) = .ok _ := rfl
  refine ⟨fun rest => ?overlap, ?wellFormed, ?shown⟩
  case overlap =>
    exact (build_accepts_wellFormed _ _).2.1 _ _ rest _ rfl hunbroken hbreaks
  case wellFormed => exact (build_accepts_wellFormed _ _).1.1 ⟨_, hbuild⟩
  case shown =>
    obtain ⟨-, -, sketch, hdescribes, hshows⟩ := (build_accepts_wellFormed _ _).2.2.2 _ hbuild
    exact ⟨_, sketch, hbuild, (hdescribes [sketch]).2 rfl, hshows⟩

end Calls

end Draft

end HclEdit
