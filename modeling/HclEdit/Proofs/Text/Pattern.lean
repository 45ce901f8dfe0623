import HclEdit.Proofs.Lists
import HclEdit.Text.Basic

/-!
# Patterns, read leftmost first

A pattern takes the front of a text in several ways. A backtracking matcher tries them in a fixed
order: a greedy run goes on before it stops, a lazy one stops before it goes on, and what is
optional is taken before it is left out. The first way that takes the whole text is the match.
-/

namespace HclEdit

inductive Pattern where
  | literal (text : Text)
  | one (allows : Char → Bool)
  | many (greedy : Bool) (allows : Char → Bool)
  | optional (inner : Pattern)
  | named (name : Text) (inner : Pattern)
  | followedBy (front back : Pattern)

namespace Pattern

/-- What a pattern takes, what it leaves, and what its named parts take. -/
structure Way where
  taken : Text
  rest : Text
  groups : List (Text × Text)

namespace Way

def after (front : Text) (way : Way) : Way :=
  { way with taken := front ++ way.taken }

def named (name : Text) (way : Way) : Way :=
  { way with groups := (name, way.taken) :: way.groups }

def followedBy (front back : Way) : Way :=
  ⟨front.taken ++ back.taken, back.rest, front.groups ++ back.groups⟩

def group? (way : Way) (name : Text) : Option Text :=
  way.groups.lookup name

end Way

def runs (greedy : Bool) (allows : Char → Bool) : Text → List Way
  | [] => [⟨[], [], []⟩]
  | c :: rest =>
      let longer := if allows c then (runs greedy allows rest).map (Way.after [c]) else []
      if greedy then longer ++ [⟨[], c :: rest, []⟩] else ⟨[], c :: rest, []⟩ :: longer

/-- All ways to take the front of a text, in the order in which they are tried. -/
def ways : Pattern → Text → List Way
  | literal text, line =>
      if text.isPrefixOf line then [⟨text, line.drop text.length, []⟩] else []
  | one allows, line =>
      match line with
      | [] => []
      | c :: rest => if allows c then [⟨[c], rest, []⟩] else []
  | many greedy allows, line => runs greedy allows line
  | optional inner, line => inner.ways line ++ [⟨[], line, []⟩]
  | named name inner, line => (inner.ways line).map (Way.named name)
  | followedBy front back, line =>
      (front.ways line).flatMap fun way => (back.ways way.rest).map way.followedBy

/-- A run that is not empty. -/
def oneOrMore (greedy : Bool) (allows : Char → Bool) : Pattern :=
  (one allows).followedBy (many greedy allows)

def firstMatch? (pattern : Pattern) (line : Text) : Option Way :=
  (pattern.ways line).find? (·.rest.isEmpty)

def accepts (pattern : Pattern) (line : Text) : Bool :=
  (pattern.firstMatch? line).isSome

/-- What the part with a name takes in the match, if there is a match and the part is in it. -/
def capture? (pattern : Pattern) (name line : Text) : Option (Option Text) :=
  (pattern.firstMatch? line).map (·.group? name)

def names : Pattern → List Text
  | literal _ | one _ | many _ _ => []
  | optional inner => inner.names
  | named name inner => name :: inner.names
  | followedBy front back => front.names ++ back.names

/-! ### Searching the ways -/

section Search

variable {α β γ : Type} {list : List α}

theorem findSome?_flatMap (f : α → List β) (g : β → Option γ) :
    (list.flatMap f).findSome? g = list.findSome? fun a => (f a).findSome? g := by
  induction list with
  | nil => rfl
  | cons a rest ih =>
      rw [List.flatMap_cons, List.findSome?_append, ih, List.findSome?_cons]
      cases (f a).findSome? g <;> rfl

end Search

variable {pattern front back : Pattern} {name line : Text} {greedy : Bool} {allows : Char → Bool}

theorem map_firstMatch? {α : Type} (pattern : Pattern) (line : Text) (f : Way → α) :
    (pattern.firstMatch? line).map f = (pattern.ways line).findSome? fun way =>
      if way.rest.isEmpty then some (f way) else none := by
  rw [firstMatch?, List.find?_eq_findSome?_guard, List.map_findSome?]
  apply findSome?_congr
  intro way _
  simp only [Function.comp, Option.guard]
  split <;> rfl

theorem capture?_eq (pattern : Pattern) (name line : Text) :
    pattern.capture? name line = (pattern.ways line).findSome? fun way =>
      if way.rest.isEmpty then some (way.group? name) else none :=
  map_firstMatch? pattern line _

theorem accepts_iff : pattern.accepts line = true ↔ ∃ way ∈ pattern.ways line, way.rest = [] := by
  simp [accepts, firstMatch?, List.find?_isSome]

theorem isSome_capture? (pattern : Pattern) (name line : Text) :
    (pattern.capture? name line).isSome = pattern.accepts line :=
  Option.isSome_map ..

/-! ### Runs -/

theorem ways_oneOrMore_nil : (oneOrMore greedy allows).ways [] = [] := rfl

theorem ways_oneOrMore_cons (c : Char) (rest : Text) :
    (oneOrMore greedy allows).ways (c :: rest) =
      if allows c then (runs greedy allows rest).map (Way.after [c]) else [] := by
  rw [oneOrMore, ways, ways]
  split
  · rw [List.flatMap_singleton]
    rfl
  · rfl

theorem runs_lazy (allows : Char → Bool) (line : Text) :
    runs false allows line = ⟨[], line, []⟩ :: (oneOrMore false allows).ways line := by
  cases line with
  | nil => rfl
  | cons c rest =>
      rw [ways_oneOrMore_cons]
      rfl

theorem runs_greedy (allows : Char → Bool) (line : Text) :
    runs true allows line = (oneOrMore true allows).ways line ++ [⟨[], line, []⟩] := by
  cases line with
  | nil => rfl
  | cons c rest =>
      rw [ways_oneOrMore_cons]
      rfl

theorem mem_runs {way : Way} :
    way ∈ runs greedy allows line ↔
      way = ⟨[], line, []⟩ ∨ way ∈ (oneOrMore greedy allows).ways line := by
  cases greedy with
  | true => rw [runs_greedy, List.mem_append, List.mem_singleton, or_comm]
  | false => rw [runs_lazy, List.mem_cons]

theorem mem_oneOrMore {way : Way} :
    way ∈ (oneOrMore greedy allows).ways line ↔
      ∃ c rest, line = c :: rest ∧ allows c = true ∧
        ∃ later ∈ runs greedy allows rest, later.after [c] = way := by
  cases line with
  | nil => simp [ways_oneOrMore_nil]
  | cons c rest =>
      rw [ways_oneOrMore_cons]
      constructor
      · intro hmem
        split at hmem
        · next hc => exact ⟨c, rest, rfl, hc, List.mem_map.1 hmem⟩
        · exact absurd hmem List.not_mem_nil
      · rintro ⟨d, others, hline, hd, hlater⟩
        obtain ⟨rfl, rfl⟩ := List.cons.inj hline
        rw [if_pos hd]
        exact List.mem_map.2 hlater

/-- Greedy or not, a run can take any front of allowed characters. -/
theorem mem_runs_iff {taken rest : Text} {groups : List (Text × Text)} :
    ⟨taken, rest, groups⟩ ∈ runs greedy allows line ↔
      groups = [] ∧ line = taken ++ rest ∧ ∀ c ∈ taken, allows c = true := by
  induction taken generalizing line with
  | nil =>
      have hlonger : ⟨[], rest, groups⟩ ∉ (oneOrMore greedy allows).ways line := by
        intro hmem
        obtain ⟨c, more, -, -, later, -, hlater⟩ := mem_oneOrMore.1 hmem
        exact absurd (congrArg Way.taken hlater) nofun
      rw [mem_runs, or_iff_left hlonger]
      constructor
      · intro hway
        obtain ⟨-, rfl, rfl⟩ := Way.mk.inj hway
        exact ⟨rfl, rfl, nofun⟩
      · rintro ⟨rfl, rfl, -⟩
        rfl
  | cons c more ih =>
      have hstop : (⟨c :: more, rest, groups⟩ : Way) ≠ ⟨[], line, []⟩ := nofun
      rw [mem_runs, or_iff_right hstop, mem_oneOrMore]
      constructor
      · rintro ⟨d, others, rfl, hd, ⟨taken, left, inner⟩, hlater, hway⟩
        obtain ⟨htaken, rfl, rfl⟩ := Way.mk.inj hway
        obtain ⟨rfl, rfl⟩ := List.cons.inj htaken
        obtain ⟨hgroups, hothers, hallowed⟩ := ih.1 hlater
        exact ⟨hgroups, congrArg (d :: ·) hothers, List.forall_mem_cons.2 ⟨hd, hallowed⟩⟩
      · rintro ⟨hgroups, rfl, hallowed⟩
        rw [List.forall_mem_cons] at hallowed
        exact ⟨c, more ++ rest, rfl, hallowed.1, ⟨more, rest, groups⟩,
          ih.2 ⟨hgroups, rfl, hallowed.2⟩, rfl⟩

/-- A lazy run stops as soon as what is behind it goes on. -/
theorem findSome?_oneOrMore_lazy {α : Type} (f : Text → Option α) {c : Char} (hc : allows c = true)
    (rest : Text) :
    ((oneOrMore false allows).ways (c :: rest)).findSome? (fun way => f way.rest) =
      (f rest).or (((oneOrMore false allows).ways rest).findSome? fun way => f way.rest) := by
  rw [ways_oneOrMore_cons, if_pos hc, runs_lazy, List.findSome?_map, List.findSome?_cons]
  dsimp only [Function.comp, Way.after]
  cases f rest <;> rfl

section Greedy

variable {α : Type} {f : Way → Option α}
  (hf : ∀ way c rest, way.rest = c :: rest → allows c = true → f way = none)
include hf

/-- A greedy run that must not stop early goes on to its end. -/
theorem findSome?_runs_greedy (line : Text) :
    (runs true allows line).findSome? f =
      f ⟨line.takeWhile allows, line.dropWhile allows, []⟩ := by
  induction line generalizing f with
  | nil => exact List.findSome?_singleton
  | cons c rest ih =>
      rw [runs_greedy, ways_oneOrMore_cons, List.findSome?_append]
      by_cases hc : allows c = true
      · have hafter := ih (f := f ∘ Way.after [c]) fun way d more hrest =>
          hf (way.after [c]) d more hrest
        have hstop : f ⟨[], c :: rest, []⟩ = none := hf _ c rest rfl hc
        rw [if_pos hc, List.findSome?_map, hafter, List.findSome?_singleton, hstop, Option.or_none,
          List.takeWhile_cons_of_pos hc, List.dropWhile_cons_of_pos hc]
        rfl
      · rw [if_neg hc, List.takeWhile_cons_of_neg hc, List.dropWhile_cons_of_neg hc]
        exact List.findSome?_singleton

theorem findSome?_oneOrMore_greedy (line : Text) :
    ((oneOrMore true allows).ways line).findSome? f =
      if (line.takeWhile allows).isEmpty then none
      else f ⟨line.takeWhile allows, line.dropWhile allows, []⟩ := by
  cases line with
  | nil => rfl
  | cons c rest =>
      rw [ways_oneOrMore_cons]
      by_cases hc : allows c = true
      · have hafter := findSome?_runs_greedy (f := f ∘ Way.after [c])
          (fun way d more hrest => hf (way.after [c]) d more hrest) rest
        rw [if_pos hc, List.findSome?_map, hafter, List.takeWhile_cons_of_pos hc,
          List.dropWhile_cons_of_pos hc]
        rfl
      · rw [if_neg hc, List.takeWhile_cons_of_neg hc]
        rfl

end Greedy

/-! ### What a pattern accepts -/

theorem accepts_followedBy :
    (front.followedBy back).accepts line = true ↔
      ∃ way ∈ front.ways line, back.accepts way.rest = true := by
  simp only [accepts_iff, ways, List.mem_flatMap, List.mem_map]
  constructor
  · rintro ⟨_, ⟨way, hway, later, hlater, rfl⟩, hrest⟩
    exact ⟨way, hway, later, hlater, hrest⟩
  · rintro ⟨way, hway, later, hlater, hrest⟩
    exact ⟨_, ⟨way, hway, later, hlater, rfl⟩, hrest⟩

theorem mem_literal {text : Text} {way : Way} :
    way ∈ (literal text).ways line ↔ ∃ rest, line = text ++ rest ∧ way = ⟨text, rest, []⟩ := by
  rw [ways]
  constructor
  · intro hmem
    split at hmem
    · next hfront =>
        obtain ⟨rest, rfl⟩ := List.isPrefixOf_iff_prefix.1 hfront
        rw [List.mem_singleton, List.drop_left] at hmem
        exact ⟨rest, rfl, hmem⟩
    · exact absurd hmem List.not_mem_nil
  · rintro ⟨rest, rfl, rfl⟩
    rw [if_pos (List.isPrefixOf_iff_prefix.2 (List.prefix_append text rest)), List.drop_left]
    exact List.mem_singleton.2 rfl

theorem accepts_literal_followedBy {text : Text} :
    ((literal text).followedBy back).accepts line = true ↔
      ∃ rest, line = text ++ rest ∧ back.accepts rest = true := by
  rw [accepts_followedBy]
  constructor
  · rintro ⟨way, hway, haccepts⟩
    obtain ⟨rest, rfl, rfl⟩ := mem_literal.1 hway
    exact ⟨rest, rfl, haccepts⟩
  · rintro ⟨rest, rfl, haccepts⟩
    exact ⟨_, mem_literal.2 ⟨rest, rfl, rfl⟩, haccepts⟩

theorem accepts_many_followedBy :
    ((many greedy allows).followedBy back).accepts line = true ↔
      ∃ taken rest, line = taken ++ rest ∧ (∀ c ∈ taken, allows c = true) ∧
        back.accepts rest = true := by
  rw [accepts_followedBy]
  constructor
  · rintro ⟨⟨taken, rest, groups⟩, hway, haccepts⟩
    obtain ⟨-, hline, htaken⟩ := mem_runs_iff.1 hway
    exact ⟨taken, rest, hline, htaken, haccepts⟩
  · rintro ⟨taken, rest, hline, htaken, haccepts⟩
    exact ⟨⟨taken, rest, []⟩, mem_runs_iff.2 ⟨rfl, hline, htaken⟩, haccepts⟩

theorem accepts_many :
    (many greedy allows).accepts line = true ↔ ∀ c ∈ line, allows c = true := by
  rw [accepts_iff]
  constructor
  · rintro ⟨⟨taken, rest, groups⟩, hway, rfl⟩
    obtain ⟨-, rfl, htaken⟩ := mem_runs_iff.1 hway
    rwa [List.append_nil]
  · intro hline
    exact ⟨⟨line, [], []⟩, mem_runs_iff.2 ⟨rfl, (List.append_nil line).symm, hline⟩, rfl⟩

theorem accepts_optional_followedBy :
    ((optional front).followedBy back).accepts line = true ↔
      (front.followedBy back).accepts line = true ∨ back.accepts line = true := by
  simp only [accepts_followedBy, ways, List.mem_append, List.mem_singleton, or_and_right,
    exists_or, exists_eq_left]

theorem accepts_named_followedBy :
    ((named name front).followedBy back).accepts line = true ↔
      (front.followedBy back).accepts line = true := by
  simp only [accepts_followedBy, ways, List.mem_map]
  constructor
  · rintro ⟨_, ⟨way, hway, rfl⟩, haccepts⟩
    exact ⟨way, hway, haccepts⟩
  · rintro ⟨way, hway, haccepts⟩
    exact ⟨_, ⟨way, hway, rfl⟩, haccepts⟩

theorem accepts_followedBy_followedBy {last : Pattern} :
    ((front.followedBy back).followedBy last).accepts line = true ↔
      (front.followedBy (back.followedBy last)).accepts line = true := by
  simp only [accepts_followedBy, ways, List.mem_flatMap, List.mem_map]
  constructor
  · rintro ⟨_, ⟨way, hway, later, hlater, rfl⟩, haccepts⟩
    exact ⟨way, hway, later, hlater, haccepts⟩
  · rintro ⟨way, hway, later, hlater, haccepts⟩
    exact ⟨_, ⟨way, hway, later, hlater, rfl⟩, haccepts⟩

/-! ### Groups -/

theorem mem_names_of_mem_ways {way : Way} (hway : way ∈ pattern.ways line) :
    ∀ group ∈ way.groups, group.1 ∈ pattern.names := by
  induction pattern generalizing line way with
  | literal text =>
      rw [ways] at hway
      split at hway
      · rw [List.mem_singleton.1 hway]
        nofun
      · exact absurd hway List.not_mem_nil
  | one allows =>
      cases line with
      | nil => exact absurd hway List.not_mem_nil
      | cons c rest =>
        rw [ways] at hway
        split at hway
        · rw [List.mem_singleton.1 hway]
          nofun
        · exact absurd hway List.not_mem_nil
  | many greedy allows =>
      rw [(mem_runs_iff.1 hway).1]
      nofun
  | optional inner ih =>
      rcases List.mem_append.1 hway with hmem | hmem
      · exact ih hmem
      · rw [List.mem_singleton.1 hmem]
        nofun
  | named name inner ih =>
      obtain ⟨way, hmem, rfl⟩ := List.mem_map.1 hway
      intro group hgroup
      rcases List.mem_cons.1 hgroup with rfl | hgroup
      · exact List.mem_cons_self
      · exact List.mem_cons_of_mem _ (ih hmem group hgroup)
  | followedBy front back ihFront ihBack =>
      obtain ⟨way, hfront, hback⟩ := List.mem_flatMap.1 hway
      obtain ⟨later, hlater, rfl⟩ := List.mem_map.1 hback
      intro group hgroup
      rcases List.mem_append.1 hgroup with hgroup | hgroup
      · exact List.mem_append_left _ (ihFront hfront group hgroup)
      · exact List.mem_append_right _ (ihBack hlater group hgroup)

theorem group?_eq_none (hname : name ∉ pattern.names) {way : Way}
    (hway : way ∈ pattern.ways line) : way.group? name = none := by
  apply List.lookup_eq_none_iff.2
  intro group hgroup
  have hne : name ≠ group.1 := fun heq => hname (heq ▸ mem_names_of_mem_ways hway group hgroup)
  exact bne_iff_ne.2 hne

theorem group?_followedBy (way later : Way) :
    (way.followedBy later).group? name = (way.group? name).or (later.group? name) :=
  List.lookup_append

/-! ### What a named part takes -/

theorem capture?_followedBy (hname : name ∉ front.names) :
    (front.followedBy back).capture? name line =
      (front.ways line).findSome? fun way => back.capture? name way.rest := by
  rw [capture?_eq, ways, findSome?_flatMap]
  apply findSome?_congr
  intro way hway
  rw [List.findSome?_map, capture?_eq]
  apply findSome?_congr
  intro later _
  rw [Function.comp, group?_followedBy, group?_eq_none hname hway, Option.none_or]
  rfl

theorem capture?_literal_followedBy (text : Text) :
    ((literal text).followedBy back).capture? name line =
      if text.isPrefixOf line then back.capture? name (line.drop text.length) else none := by
  rw [capture?_followedBy (List.not_mem_nil), ways]
  split
  · exact List.findSome?_singleton
  · rfl

/-- What a named part takes is not changed by what comes behind it. -/
theorem capture?_named_followedBy :
    ((named name front).followedBy back).capture? name line =
      (front.ways line).findSome? fun way =>
        if back.accepts way.rest then some (some way.taken) else none := by
  rw [capture?_eq, ways, findSome?_flatMap, ways, List.findSome?_map]
  apply findSome?_congr
  intro way _
  have hback : ∀ later ∈ back.ways way.rest,
      ((way.named name).followedBy later).group? name = some way.taken := by
    intro later _
    rw [group?_followedBy, Way.group?, Way.named, List.lookup_cons_self, Option.some_or]
  have hsearch : ((back.ways way.rest).map (way.named name).followedBy).findSome?
      (fun way => if way.rest.isEmpty then some (way.group? name) else none) =
        (back.firstMatch? way.rest).map fun _ => some way.taken := by
    rw [map_firstMatch?, List.findSome?_map]
    apply findSome?_congr
    intro later hlater
    rw [Function.comp, hback later hlater]
    rfl
  rw [Function.comp, show (way.named name).rest = way.rest from rfl, hsearch, accepts]
  cases back.firstMatch? way.rest <;> rfl

end Pattern

end HclEdit
