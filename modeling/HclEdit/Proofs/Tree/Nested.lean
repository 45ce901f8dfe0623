import HclEdit.Proofs.Tree.Linked

/-!
# Spans of built trees

In a tree that was built without an error, every span lies within the span of its parent, siblings
stand one after the other, and only the first node has no parent.
-/

namespace HclEdit

namespace Layout

structure Nested (layout : Layout) : Prop where
  proper : ∀ id, (layout.node id).span.start ≤ (layout.node id).span.stop
  within : ∀ id parent, (layout.node id).parent = some parent →
    (layout.node id).span.Within (layout.node parent).span
  ordered : ∀ id, (layout.node id).children.Pairwise fun earlier later =>
    (layout.node earlier).span.stop ≤ (layout.node later).span.start
  rooted : ∀ id, id < layout.nodes.size → (layout.node id).parent = none → id = 0

theorem nested_empty : Layout.empty.Nested where
  proper := fun _ => Nat.le_refl _
  within := nofun
  ordered := fun _ => .nil
  rooted := nofun

/-- What a span has to satisfy to be the next one. -/
structure Fits (layout : Layout) (span : Span) : Prop where
  proper : span.start ≤ span.stop
  first : layout.path.head? = none → layout.nodes.size = 0
  within : ∀ parent, layout.path.head? = some parent → span.Within (layout.node parent).span
  behind : ∀ parent, layout.path.head? = some parent →
    ∀ sibling ∈ (layout.node parent).children.getLast?,
      (layout.node sibling).span.stop ≤ span.start

theorem Linked.lt_of_mem_children {layout : Layout} (hlinked : layout.Linked) {id child : NodeId}
    (hchild : child ∈ (layout.node id).children) : child < layout.nodes.size :=
  lt_size_of_parent (hlinked.mem_children_iff.1 hchild)

/-- A span that starts behind the last child starts behind every child. -/
theorem Nested.stop_le_of_fits {layout : Layout} (hnested : layout.Nested) {span : Span}
    (hfits : layout.Fits span) {parent child : NodeId} (hparent : layout.path.head? = some parent)
    (hchild : child ∈ (layout.node parent).children) :
    (layout.node child).span.stop ≤ span.start := by
  have hlast := List.getLast?_eq_some_getLast (List.ne_nil_of_mem hchild)
  generalize (layout.node parent).children.getLast _ = last at hlast
  have hbehind := hfits.behind parent hparent last hlast
  obtain ⟨front, hfront⟩ := List.getLast?_eq_some_iff.1 hlast
  have hordered := hnested.ordered parent
  rw [hfront, List.pairwise_append] at hordered
  rw [hfront, List.mem_append, List.mem_singleton] at hchild
  rcases hchild with hchild | rfl
  · calc (layout.node child).span.stop
        ≤ (layout.node last).span.start :=
          hordered.2.2 child hchild last (List.mem_singleton_self _)
      _ ≤ (layout.node last).span.stop := hnested.proper last
      _ ≤ span.start := hbehind
  · exact hbehind

section Add

variable {layout : Layout} (hlinked : layout.Linked) (hnested : layout.Nested) (kind : String)
  {span : Span} (named : Bool) (hfits : layout.Fits span)
include hlinked hnested hfits

theorem Nested.add : (layout.add kind span named).Nested where
  proper := by
    intro id
    rcases Nat.lt_trichotomy id layout.nodes.size with hid | rfl | hid
    · rw [span_add_of_lt kind span named hid]
      exact hnested.proper id
    · rw [span_add_self]
      exact hfits.proper
    · rw [node_of_size_le (by rw [size_add]; exact hid)]
      exact Nat.le_refl _
  within := by
    intro id parent hparent
    have hlt := lt_size_of_parent hparent
    have hparentLt := hlinked.parent_add_lt kind span named hparent
    rw [size_add] at hlt
    rw [span_add_of_lt kind span named (Nat.lt_of_lt_of_le hparentLt (Nat.le_of_lt_succ hlt))]
    rcases Nat.lt_succ_iff_lt_or_eq.1 hlt with hid | rfl
    · rw [parent_add_of_lt kind span named hid] at hparent
      rw [span_add_of_lt kind span named hid]
      exact hnested.within id parent hparent
    · rw [parent_add_self] at hparent
      rw [span_add_self]
      exact hfits.within parent hparent
  ordered := by
    intro id
    have hbefore : (layout.node id).children.Pairwise fun earlier later =>
        ((layout.add kind span named).node earlier).span.stop ≤
          ((layout.add kind span named).node later).span.start := by
      refine (hnested.ordered id).imp_of_mem fun {earlier later} hearlier hlater hle => ?_
      rw [span_add_of_lt kind span named (hlinked.lt_of_mem_children hearlier),
        span_add_of_lt kind span named (hlinked.lt_of_mem_children hlater)]
      exact hle
    rw [hlinked.children_add]
    split
    · next hhead =>
        refine List.pairwise_append.2 ⟨hbefore, List.pairwise_singleton _ _, ?_⟩
        intro child hchild added hadded
        obtain rfl := List.mem_singleton.1 hadded
        rw [span_add_of_lt kind span named (hlinked.lt_of_mem_children hchild), span_add_self]
        exact hnested.stop_le_of_fits hfits hhead hchild
    · rw [List.append_nil]
      exact hbefore
  rooted := by
    intro id hid hparent
    rw [size_add] at hid
    rcases Nat.lt_succ_iff_lt_or_eq.1 hid with hid | rfl
    · rw [parent_add_of_lt kind span named hid] at hparent
      exact hnested.rooted id hid hparent
    · rw [parent_add_self] at hparent
      exact hfits.first hparent

theorem Nested.enter : (layout.enter kind span named).Nested :=
  have hadd := hnested.add hlinked kind named hfits
  ⟨hadd.proper, hadd.within, hadd.ordered, hadd.rooted⟩

end Add

theorem Nested.leave {layout : Layout} (hnested : layout.Nested) : layout.leave.Nested :=
  ⟨hnested.proper, hnested.within, hnested.ordered, hnested.rooted⟩

end Layout

namespace Draft

/-- A span that breaks no rule fits. -/
theorem fits_of_spanError?_eq_none {draft : Draft} {span : Span}
    (hspan : draft.spanError? span = none) : draft.layout.Fits span := by
  unfold spanError? at hspan
  dsimp only at hspan
  split at hspan
  · exact absurd hspan nofun
  · next hsource =>
      have hproper : span.start ≤ span.stop := Nat.le_of_not_lt fun h => hsource (.inl h)
      split at hspan
      · next hhead =>
          split at hspan
          · next hempty =>
              exact ⟨hproper, fun _ => by simpa using hempty, by simp [hhead], by simp [hhead]⟩
          · exact absurd hspan nofun
      · next parent hhead =>
          split at hspan
          · exact absurd hspan nofun
          · next hwithin =>
              refine ⟨hproper, by simp [hhead], ?_, ?_⟩
              · rw [hhead]
                rintro _ ⟨⟩
                exact Decidable.of_not_not hwithin
              · rw [hhead]
                rintro _ ⟨⟩ sibling hsibling
                have hlast : (draft.layout.nodes[parent]?.getD default).children.getLast? =
                    some sibling := hsibling
                rw [hlast] at hspan
                dsimp only at hspan
                split at hspan
                · exact absurd hspan nofun
                · next hbehind => exact Nat.le_of_not_lt hbehind

theorem error_of_call {draft : Draft} {next : Call} (herror : (draft.call next).error = none) :
    draft.error = none ∧ draft.callError? next = none :=
  Option.or_eq_none_iff.1 herror

theorem nested_call {draft : Draft} (hlinked : draft.layout.Linked) (hnested : draft.layout.Nested)
    {next : Call} (hnext : draft.callError? next = none) : (draft.call next).layout.Nested := by
  cases next with
  | opening kind span =>
      exact hnested.enter hlinked kind true (fits_of_spanError?_eq_none hnext)
  | leaf kind span =>
      exact hnested.add hlinked kind true (fits_of_spanError?_eq_none hnext)
  | closing => exact hnested.leave

theorem nested_foldl_call {draft : Draft} (hlinked : draft.layout.Linked)
    (hnested : draft.error = none → draft.layout.Nested) (calls : List Call)
    (herror : (calls.foldl Draft.call draft).error = none) :
    (calls.foldl Draft.call draft).layout.Nested := by
  induction calls generalizing draft with
  | nil => exact hnested herror
  | cons next rest ih =>
      refine ih (linked_call hlinked next) (fun hcall => ?_) herror
      obtain ⟨hdraft, hnext⟩ := error_of_call hcall
      exact nested_call hlinked (hnested hdraft) hnext

end Draft

/-! ### Trees -/

namespace Tree

structure Nested (tree : Tree) : Prop extends tree.Linked where
  proper : ∀ id, (tree.span id).start ≤ (tree.span id).stop
  within : ∀ id parent, tree.parent? id = some parent → (tree.span id).Within (tree.span parent)
  ordered : ∀ id, (tree.children id).Pairwise fun earlier later =>
    (tree.span earlier).stop ≤ (tree.span later).start
  rooted : ∀ id, id < tree.size → tree.parent? id = none → id = root

theorem Nested.assemble {layout : Layout} (hlinked : layout.Linked) (hnested : layout.Nested)
    (source : Text) : (assemble source layout.nodes).Nested where
  toLinked := .assemble hlinked source
  proper := by
    intro id
    rw [span_assemble]
    exact hnested.proper id
  within := by
    intro id parent hparent
    rw [parent?_assemble] at hparent
    rw [span_assemble, span_assemble]
    exact hnested.within id parent hparent
  ordered := by
    intro id
    simp only [children_assemble, span_assemble]
    exact hnested.ordered id
  rooted := by
    intro id hid hparent
    rw [size_assemble] at hid
    rw [parent?_assemble] at hparent
    exact hnested.rooted id hid hparent

/-- **A built tree is nested.** -/
theorem nested_build {source : Text} {calls : List Draft.Call} {tree : Tree}
    (hbuild : Tree.build source calls = .ok tree) : tree.Nested := by
  obtain ⟨herror, -, -, rfl⟩ := Draft.finish_eq_ok_iff.1 hbuild
  have hempty : (Draft.new source).layout.Linked := Layout.linked_empty
  exact .assemble (Draft.linked_foldl_call hempty calls)
    (Draft.nested_foldl_call hempty (fun _ => Layout.nested_empty) calls herror) _

end Tree

end HclEdit
