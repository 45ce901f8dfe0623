import HclEdit.Problem.Reader
import HclEdit.Proofs.Lines.Shape
import HclEdit.Proofs.Text.Trim
import Mathlib.Data.List.TakeWhile

/-!
# Reading problems block by block

The reader moves over the lines once, and each of its loops stops short of the next header. What it
yields is what the blocks between headers say one by one: a block is a header with the lines up to
the next header, and it stands for a problem when its first location line has a usable number.
-/

namespace HclEdit.ProblemReader

def beforeHeader (lines : List Text) : List Text :=
  lines.takeWhile (! isHeader ·)

/-- A header with the lines between it and the next header. -/
structure Segment where
  header : Header
  body : List Text

/-- The segments of some lines. Lines before the first header belong to none. -/
def segments : List Text → List Segment
  | [] => []
  | line :: rest =>
      match header? line with
      | some header => ⟨header, beforeHeader rest⟩ :: segments rest
      | none => segments rest

def isContext (line : Text) : Bool :=
  Text.isBlankText line || line.head? == some ' ' || line.head? == some '\t'

namespace Segment

/-- The lines after the first location line. -/
def afterLocation (lines : List Text) : List Text :=
  (lines.dropWhile fun line => (Location.digits? line).isNone).tail

/-- The first run of lines that are not blank, behind blank and indented lines. -/
def paragraph (lines : List Text) : List Text :=
  (lines.dropWhile isContext).takeWhile (! Text.isBlankText ·)

def message (segment : Segment) : Text :=
  match paragraph (afterLocation segment.body) with
  | [] => segment.header.summary
  | lines => Text.join ['\n'] (lines.map Text.trim)

/-- The problem that a segment stands for, if its first location line has a usable number. -/
def problem? (segment : Segment) : Option Problem := do
  let digits ← segment.body.findSome? Location.digits?
  let line ← Location.number? digits
  some ⟨line, segment.header.severity, segment.header.summary, segment.message⟩

end Segment

/-- The problems that the segments of some lines stand for. -/
def reported (lines : List Text) : List Problem :=
  (segments lines).filterMap Segment.problem?

/-! ### Where segments begin and end -/

theorem beforeHeader_cons_of_isHeader {line : Text} (hline : isHeader line = true)
    (rest : List Text) : beforeHeader (line :: rest) = [] := by
  simp [beforeHeader, hline]

theorem beforeHeader_cons_of_not_isHeader {line : Text} (hline : isHeader line = false)
    (rest : List Text) : beforeHeader (line :: rest) = line :: beforeHeader rest := by
  simp [beforeHeader, hline]

theorem segments_cons_of_not_isHeader {line : Text} (hline : isHeader line = false)
    (rest : List Text) : segments (line :: rest) = segments rest := by
  have hheader : header? line = none := Option.not_isSome_iff_eq_none.1 (Bool.eq_false_iff.1 hline)
  rw [segments, hheader]

theorem beforeHeader_append {front : List Text} (hfront : ∀ line ∈ front, isHeader line = false)
    (rest : List Text) : beforeHeader (front ++ rest) = front ++ beforeHeader rest := by
  apply List.takeWhile_append_of_pos
  intro line hline
  rw [hfront line hline]
  rfl

theorem segments_append {front : List Text} (hfront : ∀ line ∈ front, isHeader line = false)
    (rest : List Text) : segments (front ++ rest) = segments rest := by
  induction front with
  | nil => rfl
  | cons line others ih =>
      rw [List.forall_mem_cons] at hfront
      rw [List.cons_append, segments_cons_of_not_isHeader hfront.1, ih hfront.2]

/-- A header with what follows it makes a segment when another header comes next, or nothing. -/
theorem segments_cons_append {line : Text} {header : Header} {front rest : List Text}
    (hheader : header? line = some header) (hfront : ∀ line ∈ front, isHeader line = false)
    (hrest : beforeHeader rest = []) :
    segments (line :: (front ++ rest)) = ⟨header, front⟩ :: segments rest := by
  rw [segments, hheader]
  dsimp only
  rw [beforeHeader_append hfront, hrest, List.append_nil, segments_append hfront]

theorem mem_of_mem_body {lines : List Text} {segment : Segment}
    (hsegment : segment ∈ segments lines) {line : Text} (hline : line ∈ segment.body) :
    line ∈ lines := by
  fun_induction segments lines with
  | case1 => exact absurd hsegment List.not_mem_nil
  | case2 first rest header _ ih =>
      rcases List.mem_cons.1 hsegment with rfl | hmem
      · exact List.mem_cons_of_mem _ ((List.takeWhile_sublist _).subset hline)
      · exact List.mem_cons_of_mem _ (ih hmem)
  | case3 first rest _ ih => exact List.mem_cons_of_mem _ (ih hsegment)

theorem newline_not_mem_lines {output line : Text} (hline : line ∈ lines output) :
    '\n' ∉ line := by
  obtain ⟨framed, hframed, rfl⟩ := List.mem_map.1 hline
  have hunframed : framed.unframed ⊆ framed := by
    unfold Text.unframed
    split
    · exact List.nil_subset _
    · exact List.nil_subset _
    · exact fun c hc => List.mem_cons_of_mem _ (List.mem_cons_of_mem _ hc)
    · exact List.subset_cons_self ..
    · exact List.Subset.refl _
  exact fun hmem => Text.newline_not_mem_of_mem_lines hframed (hunframed hmem)

/-! ### What the loops leave for the next block -/

theorem segments_dropWhile {p : Text → Bool} (hp : ∀ line, p line = true → isHeader line = false)
    (lines : List Text) : segments (lines.dropWhile p) = segments lines := by
  induction lines with
  | nil => rfl
  | cons line rest ih =>
      by_cases hline : p line = true
      · rw [List.dropWhile_cons_of_pos hline, ih, segments_cons_of_not_isHeader (hp line hline)]
      · rw [List.dropWhile_cons_of_neg hline]

theorem segments_seekLocation (lines : List Text) :
    segments (seekLocation lines).2 = segments lines := by
  fun_induction seekLocation lines with
  | case1 => rfl
  | case2 => rfl
  | case3 line rest hline digits hdigits =>
      rw [segments_cons_of_not_isHeader (Bool.eq_false_iff.2 hline)]
  | case4 line rest hline hdigits ih =>
      rw [ih, segments_cons_of_not_isHeader (Bool.eq_false_iff.2 hline)]

theorem isHeader_of_isExcerpt {line : Text} (hline : isExcerpt line = true) :
    isHeader line = false := by
  simp only [isExcerpt, Bool.and_eq_true, Bool.not_eq_true'] at hline
  exact hline.2

theorem isHeader_of_isMessage {line : Text} (hline : isMessage line = true) :
    isHeader line = false := by
  simp only [isMessage, Bool.and_eq_true, Bool.not_eq_true'] at hline
  exact hline.2

/-! ### What the loops read of a block -/

theorem seekLocation_fst (lines : List Text) :
    (seekLocation lines).1 =
      ((beforeHeader lines).findSome? Location.digits?).bind Location.number? := by
  fun_induction seekLocation lines with
  | case1 => rfl
  | case2 line rest hline =>
      rw [beforeHeader_cons_of_isHeader hline]
      rfl
  | case3 line rest hline digits hdigits =>
      rw [beforeHeader_cons_of_not_isHeader (Bool.eq_false_iff.2 hline), List.findSome?_cons,
        hdigits]
      rfl
  | case4 line rest hline hdigits ih =>
      rw [beforeHeader_cons_of_not_isHeader (Bool.eq_false_iff.2 hline), List.findSome?_cons,
        hdigits]
      exact ih

theorem beforeHeader_seekLocation {lines : List Text}
    (hdigits : ((beforeHeader lines).findSome? Location.digits?).isSome = true) :
    beforeHeader (seekLocation lines).2 = Segment.afterLocation (beforeHeader lines) := by
  fun_induction seekLocation lines with
  | case1 => exact absurd hdigits Bool.false_ne_true
  | case2 line rest hline =>
      rw [beforeHeader_cons_of_isHeader hline] at hdigits
      exact absurd hdigits Bool.false_ne_true
  | case3 line rest hline digits hfound =>
      rw [beforeHeader_cons_of_not_isHeader (Bool.eq_false_iff.2 hline), Segment.afterLocation,
        List.dropWhile_cons_of_neg (by simp [hfound])]
      rfl
  | case4 line rest hline hnone ih =>
      rw [beforeHeader_cons_of_not_isHeader (Bool.eq_false_iff.2 hline)] at hdigits ⊢
      rw [List.findSome?_cons, hnone] at hdigits
      rw [ih hdigits, Segment.afterLocation, Segment.afterLocation,
        List.dropWhile_cons_of_pos (by simp [hnone])]

theorem beforeHeader_dropExcerpt (lines : List Text) :
    beforeHeader (dropExcerpt lines) = (beforeHeader lines).dropWhile isContext := by
  induction lines with
  | nil => rfl
  | cons line rest ih =>
      cases hline : isHeader line with
      | true =>
          have hexcerpt : isExcerpt line = false := by simp [isExcerpt, hline]
          rw [dropExcerpt, List.dropWhile_cons_of_neg (by simp [hexcerpt]),
            beforeHeader_cons_of_isHeader hline]
          rfl
      | false =>
          have hexcerpt : isExcerpt line = isContext line := by
            simp [isExcerpt, isContext, hline]
          rw [beforeHeader_cons_of_not_isHeader hline, dropExcerpt]
          by_cases hcontext : isContext line = true
          · rw [List.dropWhile_cons_of_pos (hexcerpt.trans hcontext),
              List.dropWhile_cons_of_pos hcontext]
            exact ih
          · rw [List.dropWhile_cons_of_neg (by rwa [hexcerpt]),
              List.dropWhile_cons_of_neg hcontext, beforeHeader_cons_of_not_isHeader hline]

theorem takeWhile_isMessage (lines : List Text) :
    lines.takeWhile isMessage = (beforeHeader lines).takeWhile (! Text.isBlankText ·) := by
  rw [beforeHeader, List.takeWhile_takeWhile]
  congr 1
  funext line
  simp [isMessage]

theorem takeMessage_dropExcerpt (lines : List Text) :
    (takeMessage (dropExcerpt lines)).1 =
      Text.join ['\n'] ((Segment.paragraph (beforeHeader lines)).map Text.trim) := by
  rw [takeMessage, takeWhile_isMessage, beforeHeader_dropExcerpt]
  rfl

/-- A paragraph that has lines has a text. -/
theorem join_paragraph_ne_nil {lines : List Text} (hlines : Segment.paragraph lines ≠ []) :
    Text.join ['\n'] ((Segment.paragraph lines).map Text.trim) ≠ [] := by
  obtain ⟨first, others, hparagraph⟩ := List.exists_cons_of_ne_nil hlines
  have hmem : first ∈ Segment.paragraph lines := hparagraph ▸ List.mem_cons_self
  have hblank : Text.isBlankText first = false := by
    have hkept := List.mem_takeWhile_imp hmem
    rwa [Bool.not_eq_true'] at hkept
  have htrim : Text.trim first ≠ [] := by
    rw [Ne, Text.trim_eq_nil_iff, hblank]
    exact Bool.false_ne_true
  rw [hparagraph, List.map_cons]
  by_cases hothers : others.map Text.trim = []
  · rw [hothers]
    exact htrim
  · rw [Text.join_cons hothers]
    simp [htrim]

/-! ### One block -/

theorem Segment.problem?_eq (segment : Segment) : segment.problem? =
    ((segment.body.findSome? Location.digits?).bind Location.number?).map fun line =>
      ⟨line, segment.header.severity, segment.header.summary, segment.message⟩ := by
  unfold problem?
  cases segment.body.findSome? Location.digits? with
  | none => rfl
  | some digits => cases hnumber : Location.number? digits <;> simp [hnumber]

theorem message_of_beforeHeader_eq (header : Header) {lines rest : List Text}
    (hrest : beforeHeader rest = Segment.afterLocation lines) :
    Segment.message ⟨header, lines⟩ =
      if (takeMessage (dropExcerpt rest)).1.isEmpty then header.summary
      else (takeMessage (dropExcerpt rest)).1 := by
  have htext := takeMessage_dropExcerpt rest
  rw [hrest] at htext
  unfold Segment.message
  dsimp only
  split
  · next hnil =>
      rw [hnil] at htext
      rw [htext]
      rfl
  · next hcons =>
      have hne := join_paragraph_ne_nil hcons
      rw [← htext] at hne ⊢
      rw [if_neg (by simpa using hne)]

theorem readBlock_fst (header : Header) (lines : List Text) :
    (readBlock header lines).1 = Segment.problem? ⟨header, beforeHeader lines⟩ := by
  have hnumber := seekLocation_fst lines
  rw [Segment.problem?_eq, ← hnumber]
  unfold readBlock
  split
  · next hseek => rw [hseek]; rfl
  · next line rest hseek =>
      rw [hseek] at hnumber
      have hdigits : ((beforeHeader lines).findSome? Location.digits?).isSome = true := by
        cases hfound : (beforeHeader lines).findSome? Location.digits? with
        | none => rw [hfound] at hnumber; exact absurd hnumber nofun
        | some digits => rfl
      have hrest := beforeHeader_seekLocation hdigits
      rw [hseek] at hrest
      rw [hseek, message_of_beforeHeader_eq header hrest]
      rfl

theorem segments_readBlock (header : Header) (lines : List Text) :
    segments (readBlock header lines).2 = segments lines := by
  have hseek := segments_seekLocation lines
  unfold readBlock
  split
  · next hlines => rw [← hseek, hlines]
  · next line rest hlines =>
      rw [hlines] at hseek
      calc segments ((dropExcerpt rest).dropWhile isMessage)
          = segments (dropExcerpt rest) := segments_dropWhile (fun _ => isHeader_of_isMessage) _
        _ = segments rest := segments_dropWhile (fun _ => isHeader_of_isExcerpt) _
        _ = segments lines := hseek

/-! ### One call of the reader -/

theorem segments_of_takeHeader?_eq_none {lines : List Text} (hnone : takeHeader? lines = none) :
    segments lines = [] := by
  fun_induction takeHeader? lines with
  | case1 => rfl
  | case2 => exact absurd hnone nofun
  | case3 line rest hline ih =>
      rw [segments, hline]
      exact ih hnone

theorem segments_of_takeHeader?_eq_some {lines rest : List Text} {header : Header}
    (hsome : takeHeader? lines = some (header, rest)) :
    segments lines = ⟨header, beforeHeader rest⟩ :: segments rest := by
  fun_induction takeHeader? lines with
  | case1 => exact absurd hsome nofun
  | case2 line others found hline =>
      obtain ⟨rfl, rfl⟩ := Prod.mk.inj (Option.some.inj hsome)
      rw [segments, hline]
  | case3 line others hline ih =>
      rw [segments, hline]
      exact ih hsome

theorem length_segments_le (lines : List Text) : (segments lines).length ≤ lines.length := by
  fun_induction segments lines with
  | case1 => exact Nat.le_refl _
  | case2 => simpa
  | case3 line rest hline ih => exact Nat.le_succ_of_le ih

theorem nextWithin_eq {steps : Nat} {lines : List Text}
    (hsteps : (segments lines).length < steps) :
    (nextWithin steps lines).1 = (reported lines).head? ∧
      reported (nextWithin steps lines).2 = (reported lines).tail := by
  -- By induction on the steps: blocks without a problem take one each.
  induction steps generalizing lines with
  | zero => exact absurd hsteps (Nat.not_lt_zero _)
  | succ steps ih =>
      rw [nextWithin]
      split
      · next hnone =>
          have hreported : reported lines = [] := by
            rw [reported, segments_of_takeHeader?_eq_none hnone]
            rfl
          rw [hreported]
          exact ⟨rfl, rfl⟩
      · next header rest hsome =>
          have hsegments := segments_of_takeHeader?_eq_some hsome
          have hproblem := readBlock_fst header rest
          have hleft := segments_readBlock header rest
          rw [hsegments, List.length_cons] at hsteps
          split
          · next problem left hblock =>
              rw [hblock] at hproblem hleft
              have hreported : reported lines = problem :: reported left := by
                rw [reported, hsegments, List.filterMap_cons, ← hproblem, ← hleft]
                rfl
              rw [hreported]
              exact ⟨rfl, rfl⟩
          · next left hblock =>
              rw [hblock] at hproblem hleft
              have hreported : reported lines = reported left := by
                rw [reported, hsegments, List.filterMap_cons, ← hproblem, ← hleft]
                rfl
              rw [hreported]
              apply ih
              rw [hleft]
              exact Nat.lt_of_succ_lt_succ hsteps

/-- **One call** yields the first reported problem and leaves the others. -/
theorem next_eq (lines : List Text) :
    (next lines).1 = (reported lines).head? ∧ reported (next lines).2 = (reported lines).tail :=
  nextWithin_eq (Nat.lt_succ_of_le (length_segments_le lines))

/-! ### All calls of the reader -/

theorem problemsWithin_eq {steps : Nat} {lines : List Text}
    (hsteps : (reported lines).length < steps) :
    (problemsWithin steps lines).1 = reported lines := by
  induction steps generalizing lines with
  | zero => exact absurd hsteps (Nat.not_lt_zero _)
  | succ steps ih =>
      obtain ⟨hhead, htail⟩ := next_eq lines
      rw [problemsWithin]
      split
      · next left hnext =>
          rw [hnext] at hhead
          exact (List.head?_eq_none_iff.1 hhead.symm).symm
      · next problem left hnext =>
          rw [hnext] at hhead htail
          have hreported : reported lines = problem :: reported left := by
            rw [htail]
            cases hlist : reported lines with
            | nil =>
                rw [hlist] at hhead
                exact absurd hhead nofun
            | cons first others =>
                rw [hlist] at hhead
                exact congrArg (· :: others) (Option.some.inj hhead).symm
          rw [hreported, List.length_cons] at hsteps
          rw [hreported]
          exact congrArg (problem :: ·) (ih (Nat.lt_of_succ_lt_succ hsteps))

/-- All problems, told block by block. -/
theorem readAll_fst (lines : List Text) : (readAll lines).1 = reported lines := by
  apply problemsWithin_eq
  calc (reported lines).length
      ≤ (segments lines).length := List.length_filterMap_le _ _
    _ ≤ lines.length := length_segments_le lines
    _ < lines.length + 1 := Nat.lt_succ_self _

/-- The lines left after some calls. -/
def leftAfter : Nat → List Text → List Text
  | 0, lines => lines
  | calls + 1, lines => leftAfter calls (next lines).2

theorem reported_leftAfter (calls : Nat) (lines : List Text) :
    reported (leftAfter calls lines) = (reported lines).drop calls := by
  induction calls generalizing lines with
  | zero => rfl
  | succ calls ih =>
      rw [leftAfter, ih, (next_eq lines).2, List.drop_tail]

theorem next_leftAfter (calls : Nat) (lines : List Text) :
    (next (leftAfter calls lines)).1 = (reported lines)[calls]? := by
  rw [(next_eq _).1, reported_leftAfter, List.head?_drop]

/-- **The reader yields what the segments stand for, one by one.** Each call yields the problem of
the next segment that has one, and once there is none left no call yields any more. -/
theorem problems_eq_segments (output : Text) :
    problems output = (segments (lines output)).filterMap Segment.problem? ∧
      (∀ calls, (next (leftAfter calls (lines output))).1 =
        ((segments (lines output)).filterMap Segment.problem?)[calls]?) ∧
      ∀ calls more, (next (leftAfter calls (lines output))).1 = none →
        (next (leftAfter (calls + more) (lines output))).1 = none := by
  refine ⟨readAll_fst _, fun calls => next_leftAfter calls _, fun calls more hnone => ?_⟩
  rw [next_leftAfter, List.getElem?_eq_none_iff] at hnone ⊢
  exact Nat.le_add_right_of_le hnone

/-- A block without a location, one in a box, and one whose location has too large a number. -/
def mixedOutput : Text :=
  Text.join ['\n'] (["note", "Error: a", "", "no place", "╷", "│ Warning: b ",
    "│   on x line 7, in y:", "│    7: z", "│", "│ c", "│  d", "╵", "Error: e",
    "on x line 99999999999999999999:", "on x line 4:"].map String.toList)

theorem problems_mixedOutput :
    problems mixedOutput = [⟨7, .warning, ['b'], ['c', '\n', 'd']⟩] ∧
      (next (leftAfter 1 (lines mixedOutput))).1 = none ∧
      (next (leftAfter (1 + 2) (lines mixedOutput))).1 = none := by
  obtain ⟨hproblems, hcalls, hnone⟩ := problems_eq_segments mixedOutput
  have hreported : (segments (lines mixedOutput)).filterMap Segment.problem? =
      [⟨7, .warning, ['b'], ['c', '\n', 'd']⟩] := by decide +kernel
  have hone : (next (leftAfter 1 (lines mixedOutput))).1 = none := by
    rw [hcalls, hreported]
    rfl
  exact ⟨hproblems.trans hreported, hone, hnone 1 2 hone⟩

end HclEdit.ProblemReader
