import HclEdit.Proofs.Tree.Drafting

/-!
# Parses whose spans nest

While a parse in preorder is laid out, each entered node lies as deep as there are nodes around it,
and what has come behind it lies deeper. The innermost one is therefore the parent that the depths
give for the next node, so if the spans of the parse nest, the next one fits below it.
-/

namespace HclEdit

namespace ParseTree

/-- The spans of a parse lie in the source and in the spans of their parents, and siblings do not
overlap. What lies below a node are the deeper nodes right behind it, and its later siblings are the
nodes of its depth in front of the next one that is less deep. -/
def IsNested (source : Text) : ParseTree → Prop
  | [] => True
  | node :: rest =>
      Draft.LiesIn source node.span ∧
        (∀ child ∈ rest.takeWhile (node.depth < ·.depth),
          child.depth = node.depth + 1 → child.span.Within node.span) ∧
        (∀ sibling ∈ rest.takeWhile (node.depth ≤ ·.depth),
          sibling.depth = node.depth → node.span.stop ≤ sibling.span.start) ∧
        IsNested source rest

end ParseTree

/-! ### The nodes that are entered -/

namespace ParseTree

/-- A path leads through nodes of a parse: each of them lies as deep as there are nodes around it,
and all nodes behind it lie deeper. -/
def Leads (before : ParseTree) : List NodeId → Prop
  | [] => True
  | id :: outer =>
      (∃ front node behind, before = front ++ node :: behind ∧ front.length = id ∧
        node.depth = outer.length ∧ ∀ inner ∈ behind, node.depth < inner.depth) ∧
      Leads before outer

variable {before : ParseTree} {path : List NodeId} {node : ParseNode}

theorem Leads.drop (hleads : before.Leads path) (count : Nat) : before.Leads (path.drop count) := by
  induction count generalizing path with
  | zero => exact hleads
  | succ count ih =>
      cases path with
      | nil => exact hleads
      | cons id outer => exact ih hleads.2

theorem Leads.append_singleton (hleads : before.Leads path) (hdepth : path.length ≤ node.depth) :
    (before ++ [node]).Leads path := by
  induction path with
  | nil => trivial
  | cons id outer ih =>
      obtain ⟨⟨front, entered, behind, rfl, hid, hentered, hbehind⟩, houter⟩ := hleads
      rw [List.length_cons] at hdepth
      refine ⟨⟨front, entered, behind ++ [node], by simp, hid, hentered, ?_⟩,
        ih houter (by omega)⟩
      intro inner hinner
      rcases List.mem_append.1 hinner with hinner | hinner
      · exact hbehind inner hinner
      · rw [List.mem_singleton.1 hinner]
        omega

theorem Leads.cons (hleads : before.Leads path) (hdepth : node.depth = path.length) :
    (before ++ [node]).Leads (before.length :: path) :=
  ⟨⟨before, node, [], rfl, rfl, hdepth, nofun⟩,
    hleads.append_singleton (Nat.le_of_eq hdepth.symm)⟩

end ParseTree

namespace Layout

theorem length_path_leaveTo (layout : Layout) (depth : Nat) :
    (layout.leaveTo depth).path.length = min layout.path.length depth := by
  rw [leaveTo, List.length_drop]
  omega

theorem length_path_visit (layout : Layout) (node : ParseNode) :
    (layout.visit node).path.length = min layout.path.length node.depth + 1 :=
  congrArg Nat.succ (layout.length_path_leaveTo node.depth)

/-- A layout of the first nodes of a parse. -/
structure Follows (layout : Layout) (before : ParseTree) : Prop where
  size_eq : layout.nodes.size = before.length
  span_eq : ∀ id node, before[id]? = some node → (layout.node id).span = node.span
  leads : before.Leads layout.path
  depth_eq : ∀ id parent, (layout.node id).parent = some parent → ∃ node above,
    before[id]? = some node ∧ before[parent]? = some above ∧ node.depth = above.depth + 1

theorem follows_empty : Layout.empty.Follows [] where
  size_eq := rfl
  span_eq := nofun
  leads := trivial
  depth_eq := nofun

section Follows

variable {layout : Layout} {before : ParseTree} {node : ParseNode}

theorem Follows.leaveTo (hfollows : layout.Follows before) (depth : Nat) :
    (layout.leaveTo depth).Follows before where
  size_eq := hfollows.size_eq
  span_eq := hfollows.span_eq
  leads := hfollows.leads.drop _
  depth_eq := hfollows.depth_eq

/-- The innermost entered node lies one level above what is put below it. -/
theorem Follows.exists_head (hfollows : layout.Follows before) {parent : NodeId}
    (hparent : layout.path.head? = some parent) :
    ∃ front above behind, before = front ++ above :: behind ∧ front.length = parent ∧
      layout.path.length = above.depth + 1 ∧ ∀ inner ∈ behind, above.depth < inner.depth := by
  obtain ⟨outer, houter⟩ := List.head?_eq_some_iff.1 hparent
  have hleads := hfollows.leads
  rw [houter] at hleads ⊢
  obtain ⟨⟨front, above, behind, hbefore, hlength, hdepth, hbehind⟩, -⟩ := hleads
  exact ⟨front, above, behind, hbefore, hlength, congrArg Nat.succ hdepth.symm, hbehind⟩

theorem Follows.enter (hfollows : layout.Follows before) (kind : String) (named : Bool)
    (hdepth : node.depth = layout.path.length) :
    (layout.enter kind node.span named).Follows (before ++ [node]) where
  size_eq := by
    have hsize := layout.size_add kind node.span named
    rw [List.length_append, List.length_singleton, ← hfollows.size_eq]
    exact hsize
  span_eq := by
    intro id other hother
    by_cases hid : id < before.length
    · rw [List.getElem?_append_left hid] at hother
      rw [← hfollows.size_eq] at hid
      exact (span_add_of_lt kind node.span named hid).trans (hfollows.span_eq id other hother)
    · have hlt := (List.getElem?_eq_some_iff.1 hother).1
      rw [List.length_append, List.length_singleton] at hlt
      obtain rfl : id = before.length :=
        Nat.le_antisymm (Nat.le_of_lt_succ hlt) (Nat.le_of_not_lt hid)
      obtain rfl : node = other := by simpa using hother
      rw [← hfollows.size_eq]
      exact span_add_self kind node.span named
  leads := by
    have hpath : (layout.enter kind node.span named).path =
        layout.nodes.size :: layout.path := rfl
    rw [hpath, hfollows.size_eq]
    exact hfollows.leads.cons hdepth
  depth_eq := by
    intro id parent hparent
    rcases parent_add_cases kind node.span named hparent with ⟨-, hparent⟩ | ⟨rfl, hhead⟩
    · obtain ⟨inner, above, hinner, habove, heq⟩ := hfollows.depth_eq id parent hparent
      refine ⟨inner, above, ?_, ?_, heq⟩
      · rw [List.getElem?_append_left (List.getElem?_eq_some_iff.1 hinner).1]
        exact hinner
      · rw [List.getElem?_append_left (List.getElem?_eq_some_iff.1 habove).1]
        exact habove
    · obtain ⟨front, above, behind, rfl, rfl, hlength, -⟩ := hfollows.exists_head hhead
      refine ⟨node, above, ?_, by simp, hdepth.trans hlength⟩
      rw [hfollows.size_eq]
      exact List.getElem?_concat_length

theorem Follows.visit (hfollows : layout.Follows before)
    (hdepth : node.depth ≤ layout.path.length) :
    (layout.visit node).Follows (before ++ [node]) := by
  refine (hfollows.leaveTo _).enter node.kind node.named ?_
  have hlength := layout.length_path_leaveTo node.depth
  rw [Nat.min_eq_right hdepth] at hlength
  exact hlength.symm

end Follows

end Layout

/-! ### The next node fits -/

namespace ParseTree

variable {source : Text} {front behind rest : ParseTree} {node other : ParseNode}

theorem IsNested.of_append (hnested : IsNested source (front ++ rest)) : IsNested source rest := by
  induction front with
  | nil => exact hnested
  | cons node front ih => exact ih hnested.2.2.2

theorem mem_of_getElem?_append_cons {id : NodeId} (hid : front.length < id)
    (hother : (front ++ node :: behind)[id]? = some other) : other ∈ behind := by
  obtain ⟨index, rfl⟩ := Nat.exists_eq_add_of_lt hid
  have hshift : front.length + index + 1 - front.length = index + 1 := by omega
  rw [List.getElem?_append_right (by omega), hshift, List.getElem?_cons_succ] at hother
  exact List.mem_of_getElem? hother

theorem mem_takeWhile_append {holds : ParseNode → Bool}
    (hbehind : ∀ inner ∈ behind, holds inner = true) (hother : holds other = true) :
    other ∈ (behind ++ other :: rest).takeWhile holds := by
  rw [List.takeWhile_append_of_pos hbehind, List.takeWhile_cons_of_pos hother]
  exact List.mem_append_right _ List.mem_cons_self

theorem IsNested.within (hnested : IsNested source (front ++ node :: (behind ++ other :: rest)))
    (hbehind : ∀ inner ∈ behind, node.depth < inner.depth) (hdepth : other.depth = node.depth + 1) :
    other.span.Within node.span := by
  refine hnested.of_append.2.1 other (mem_takeWhile_append ?_ ?_) hdepth
  · intro inner hinner
    exact decide_eq_true (hbehind inner hinner)
  · rw [hdepth]
    exact decide_eq_true (Nat.lt_succ_self _)

theorem IsNested.stop_le (hnested : IsNested source (front ++ node :: (behind ++ other :: rest)))
    (hbehind : ∀ inner ∈ behind, node.depth ≤ inner.depth) (hdepth : other.depth = node.depth) :
    node.span.stop ≤ other.span.start := by
  refine hnested.of_append.2.2.1 other (mem_takeWhile_append ?_ ?_) hdepth
  · intro inner hinner
    exact decide_eq_true (hbehind inner hinner)
  · exact decide_eq_true (Nat.le_of_eq hdepth.symm)

end ParseTree

namespace Layout

variable {layout : Layout} {source : Text} {before rest : ParseTree} {node : ParseNode}

/-- The next node of a nested parse fits below the innermost entered one. -/
theorem Follows.fits (hfollows : layout.Follows before) (hlinked : layout.Linked)
    (hnested : ParseTree.IsNested source (before ++ node :: rest))
    (hdepth : node.depth = layout.path.length) (hfirst : layout.path = [] → before = []) :
    layout.Fits node.span where
  proper := hnested.of_append.1.1
  first := by
    intro hpath
    rw [hfollows.size_eq, hfirst (List.head?_eq_none_iff.1 hpath)]
    rfl
  within := by
    intro parent hparent
    obtain ⟨front, above, behind, rfl, rfl, hlength, hbehind⟩ := hfollows.exists_head hparent
    rw [hfollows.span_eq front.length above (by simp)]
    rw [List.append_assoc, List.cons_append] at hnested
    exact hnested.within hbehind (hdepth.trans hlength)
  behind := by
    intro parent hparent sibling hsibling
    obtain ⟨front, above, behind, rfl, rfl, hlength, hbehind⟩ := hfollows.exists_head hparent
    have hbelow := hlinked.mem_children_iff.1 (List.mem_of_getLast? hsibling)
    obtain ⟨earlier, outer, hearlier, houter, hdepth'⟩ := hfollows.depth_eq _ _ hbelow
    obtain rfl : above = outer := by simpa using houter
    rw [hfollows.span_eq sibling earlier hearlier]
    -- A child comes behind its parent, so it is one of the deeper nodes.
    have hlt := hlinked.parent_lt _ _ hbelow
    obtain ⟨between, later, rfl⟩ :=
      List.append_of_mem (ParseTree.mem_of_getElem?_append_cons hlt hearlier)
    have hsplit : front ++ above :: (between ++ earlier :: later) ++ node :: rest =
        (front ++ above :: between) ++ earlier :: (later ++ node :: rest) := by simp
    rw [hsplit] at hnested
    refine hnested.stop_le (fun inner hinner => ?_) (by omega)
    have hdeeper := hbehind inner (List.mem_append_right _ (List.mem_cons_of_mem _ hinner))
    omega

end Layout

end HclEdit
