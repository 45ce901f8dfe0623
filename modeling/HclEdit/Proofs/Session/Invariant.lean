import HclEdit.Session

/-!
# What every session keeps

The generation of a session counts its launches. The runs carry increasing generations, none above
the session's own, and the tracked run is the one with the session's generation: it is watched, and
it is neither killed nor finished. Every other run is killed or finished. One step keeps all of
this as long as the generation does not wrap around, hence so does a whole run of events.
-/

namespace HclEdit.Session

/-- Whether an event gets past the resolution of the command, and so asks for a launch. -/
def Event.asks : Event → Bool
  | .start (.ok _) _ _ => true
  | _ => false

def generations (session : Session) : List UInt64 :=
  session.runs.map (·.generation)

def trackedRun? (session : Session) : Option Nat :=
  match session.state with
  | .idle => none
  | .running _ run => some run

structure Invariant (session : Session) : Prop where
  generation_eq : session.generation.toNat = session.launches
  increasing : session.generations.Pairwise (· < ·)
  bounded : ∀ generation ∈ session.generations, generation ≤ session.generation
  tracked : ∀ generation run, session.state = .running generation run →
    generation = session.generation ∧
      ∃ buffer, session.runs[run]? = some ⟨generation, buffer, true, false, false⟩
  settled : ∀ run checker, session.runs[run]? = some checker → session.trackedRun? ≠ some run →
    checker.killed = true ∨ checker.finished = true

theorem invariant_new : new.Invariant where
  generation_eq := rfl
  increasing := List.Pairwise.nil
  bounded := by simp [new, generations]
  tracked := by simp [new]
  settled := by simp [new]

/-! ### Cancelling -/

@[simp] theorem generation_cancel (session : Session) :
    session.cancel.generation = session.generation := by
  unfold cancel
  split <;> rfl

@[simp] theorem state_cancel (session : Session) : session.cancel.state = .idle := by
  unfold cancel
  split
  · assumption
  · rfl

@[simp] theorem trackedRun?_cancel (session : Session) : session.cancel.trackedRun? = none := by
  simp [trackedRun?]

@[simp] theorem launched_cancel (session : Session) :
    session.cancel.launched = session.launched := by
  unfold cancel
  split <;> rfl

theorem runs_cancel (session : Session) (run : Nat) :
    session.cancel.runs[run]? = session.runs[run]?.map fun checker =>
      if session.trackedRun? = some run then { checker with killed := true } else checker := by
  unfold cancel
  split
  · next hstate => simp [trackedRun?, hstate]
  · next generation tracked hstate =>
      by_cases hrun : tracked = run
      · simp [trackedRun?, hstate, hrun]
      · simp [trackedRun?, hstate, hrun]

theorem map_modify_of_eq {α β : Type} (f : α → β) (g : α → α) (hfg : ∀ a, f (g a) = f a)
    (index : Nat) (list : List α) : (list.modify index g).map f = list.map f := by
  apply List.ext_getElem?
  intro position
  rw [List.getElem?_map, List.getElem?_map, List.getElem?_modify]
  split <;> simp [Function.comp_def, hfg]

theorem map_runs_cancel {α : Type} (f : CheckerRun → α)
    (hf : ∀ checker : CheckerRun, f { checker with killed := true } = f checker)
    (session : Session) : session.cancel.runs.map f = session.runs.map f := by
  unfold cancel
  split
  · rfl
  · next run _ =>
      exact map_modify_of_eq f (fun checker => { checker with killed := true }) hf run session.runs

@[simp] theorem generations_cancel (session : Session) :
    session.cancel.generations = session.generations :=
  map_runs_cancel (·.generation) (fun _ => rfl) session

theorem Invariant.cancel {session : Session} (hinv : session.Invariant) :
    session.cancel.Invariant where
  generation_eq := by simpa [launches] using hinv.generation_eq
  increasing := by simpa using hinv.increasing
  bounded := by simpa using hinv.bounded
  tracked := by simp
  settled := by
    intro run checker hchecker _
    rw [runs_cancel, Option.map_eq_some_iff] at hchecker
    obtain ⟨before, hbefore, rfl⟩ := hchecker
    by_cases htracked : session.trackedRun? = some run
    · simp [htracked]
    · rw [if_neg htracked]
      exact hinv.settled run before hbefore htracked

/-! ### Asking for a launch -/

/-- The session that has stopped what it ran and asks for the launch of a command. -/
def asking (session : Session) (command : Executable) : Session :=
  { session.cancel with
    generation := session.generation + 1
    launched := session.cancel.launched ++ [command] }

def adding (session : Session) (checker : CheckerRun) : Session :=
  { session with runs := session.runs ++ [checker] }

/-- The session with one more run, tracked from now on. -/
def tracking (session : Session) (generation : UInt64) (buffer : Text) : Session :=
  { session.adding ⟨generation, buffer, true, false, false⟩ with
    state := .running generation session.runs.length }

theorem length_runs_cancel (session : Session) :
    session.cancel.runs.length = session.runs.length := by
  simpa [generations] using congrArg List.length (generations_cancel session)

theorem start_ok (session : Session) (command : Executable) (launch : Launch) (buffer : Text) :
    session.start (.ok command) launch buffer =
      match launch with
      | .refused error => (session.asking command, .error (error command))
      | .withoutPipes =>
          ((session.asking command).adding ⟨session.generation + 1, buffer, false, true, false⟩,
            .error (.launchFailed command.path pipeFailure))
      | .piped =>
          ((session.asking command).tracking (session.generation + 1) buffer,
            .ok ⟨session.generation + 1, session.runs.length⟩) := by
  cases launch <;> simp [start, asking, adding, tracking, length_runs_cancel]

section Asking

variable {session : Session} {command : Executable}

@[simp] theorem state_asking : (session.asking command).state = .idle :=
  state_cancel session

@[simp] theorem generation_asking :
    (session.asking command).generation = session.generation + 1 := rfl

@[simp] theorem launches_asking : (session.asking command).launches = session.launches + 1 := by
  simp [asking, launches]

@[simp] theorem generations_asking :
    (session.asking command).generations = session.generations :=
  generations_cancel session

theorem runs_asking : (session.asking command).runs = session.cancel.runs := rfl

variable (hinv : session.Invariant) (hfit : session.launches + 1 < UInt64.size)
include hinv hfit

theorem Invariant.toNat_next : (session.generation + 1).toNat = session.launches + 1 := by
  rw [UInt64.toNat_add, hinv.generation_eq]
  exact Nat.mod_eq_of_lt hfit

theorem Invariant.lt_next : ∀ generation ∈ session.generations,
    generation < session.generation + 1 := by
  intro generation hmem
  have hle := UInt64.le_iff_toNat_le.1 (hinv.bounded generation hmem)
  rw [UInt64.lt_iff_toNat_lt, hinv.toNat_next hfit]
  rw [hinv.generation_eq] at hle
  omega

theorem Invariant.asking (command : Executable) : (session.asking command).Invariant where
  generation_eq := by
    rw [generation_asking, launches_asking]
    exact hinv.toNat_next hfit
  increasing := by simpa using hinv.increasing
  bounded := by
    intro generation hmem
    rw [generations_asking] at hmem
    exact UInt64.le_of_lt (hinv.lt_next hfit generation hmem)
  tracked := by simp
  settled := hinv.cancel.settled

end Asking

theorem generations_adding (session : Session) (checker : CheckerRun) :
    (session.adding checker).generations = session.generations ++ [checker.generation] := by
  simp [adding, generations]

theorem runs_adding {session : Session} {checker other : CheckerRun} {run : Nat}
    (hother : (session.adding checker).runs[run]? = some other) :
    session.runs[run]? = some other ∨ run = session.runs.length ∧ other = checker := by
  rw [adding, List.getElem?_append] at hother
  split at hother
  · exact Or.inl hother
  · rw [List.getElem?_singleton] at hother
    split at hother
    · exact Or.inr ⟨by omega, (Option.some.inj hother).symm⟩
    · exact absurd hother nofun

section Adding

variable {session : Session} {checker : CheckerRun} {generation : UInt64} {buffer : Text}
  (hinv : session.Invariant) (hidle : session.state = .idle)
include hinv

theorem Invariant.increasing_adding
    (hbelow : ∀ generation ∈ session.generations, generation < checker.generation) :
    (session.adding checker).generations.Pairwise (· < ·) := by
  rw [generations_adding, List.pairwise_append]
  refine ⟨hinv.increasing, List.pairwise_singleton _ _, ?_⟩
  intro generation hmem last hlast
  rw [List.mem_singleton.1 hlast]
  exact hbelow generation hmem

theorem Invariant.bounded_adding (hgeneration : checker.generation = session.generation) :
    ∀ generation ∈ (session.adding checker).generations, generation ≤ session.generation := by
  intro generation hmem
  rw [generations_adding, List.mem_append, List.mem_singleton] at hmem
  rcases hmem with hmem | rfl
  · exact hinv.bounded generation hmem
  · rw [hgeneration]
    exact UInt64.le_refl _

include hidle

theorem Invariant.settled_of_idle {run : Nat} {other : CheckerRun}
    (hother : session.runs[run]? = some other) :
    other.killed = true ∨ other.finished = true :=
  hinv.settled run other hother (by simp [trackedRun?, hidle])

theorem Invariant.adding (hkilled : checker.killed = true)
    (hgeneration : checker.generation = session.generation)
    (hbelow : ∀ generation ∈ session.generations, generation < checker.generation) :
    (session.adding checker).Invariant where
  generation_eq := hinv.generation_eq
  increasing := hinv.increasing_adding hbelow
  bounded := hinv.bounded_adding hgeneration
  tracked := by simp [Session.adding, hidle]
  settled := by
    intro run other hother _
    rcases runs_adding hother with hbefore | ⟨_, rfl⟩
    · exact hinv.settled_of_idle hidle hbefore
    · exact Or.inl hkilled

theorem Invariant.tracking (hgeneration : generation = session.generation)
    (hbelow : ∀ other ∈ session.generations, other < generation) :
    (session.tracking generation buffer).Invariant where
  generation_eq := hinv.generation_eq
  increasing := hinv.increasing_adding hbelow
  bounded := hinv.bounded_adding hgeneration
  tracked := by
    intro current run hstate
    obtain ⟨rfl, rfl⟩ := SessionState.running.inj hstate
    exact ⟨hgeneration, buffer, by simp [Session.tracking, Session.adding]⟩
  settled := by
    intro run other hother huntracked
    rcases runs_adding hother with hbefore | ⟨rfl, _⟩
    · exact hinv.settled_of_idle hidle hbefore
    · exact absurd rfl huntracked

end Adding

theorem Invariant.start {session : Session} {resolution : Except StartError Executable}
    {launch : Launch} {buffer : Text} (hinv : session.Invariant)
    (hfit : (session.start resolution launch buffer).1.launches < UInt64.size) :
    (session.start resolution launch buffer).1.Invariant := by
  cases resolution with
  | error error => exact hinv
  | ok command =>
      rw [start_ok] at hfit ⊢
      have hfit' : session.launches + 1 < UInt64.size := by
        have hasking : (session.asking command).launches = session.launches + 1 := launches_asking
        rw [← hasking]
        cases launch <;> exact hfit
      have hasking := hinv.asking hfit' command
      have hbelow := hinv.lt_next hfit'
      have hsame : (session.asking command).generations = session.generations :=
        generations_asking
      rw [← hsame] at hbelow
      cases launch with
      | refused error => exact hasking
      | withoutPipes => exact hasking.adding state_asking rfl rfl hbelow
      | piped => exact hasking.tracking state_asking rfl hbelow

/-! ### Coming to an end -/

def finishing (session : Session) (run : Nat) : Session :=
  { session with
    runs := session.runs.modify run fun checker => { checker with finished := true } }

theorem map_runs_finishing {α : Type} (f : CheckerRun → α)
    (hf : ∀ checker : CheckerRun, f { checker with finished := true } = f checker)
    (session : Session) (run : Nat) : (session.finishing run).runs.map f = session.runs.map f :=
  map_modify_of_eq f (fun checker => { checker with finished := true }) hf run session.runs

@[simp] theorem generations_finishing (session : Session) (run : Nat) :
    (session.finishing run).generations = session.generations :=
  map_runs_finishing (·.generation) (fun _ => rfl) session run

theorem runs_finishing (session : Session) (run other : Nat) :
    (session.finishing run).runs[other]? = session.runs[other]?.map fun checker =>
      if run = other then { checker with finished := true } else checker := by
  rw [finishing, List.getElem?_modify]
  rfl

theorem length_runs_finishing (session : Session) (run : Nat) :
    (session.finishing run).runs.length = session.runs.length :=
  List.length_modify ..

/-- Generations tell the runs apart, so the tracked generation stands for the tracked run. -/
theorem Invariant.tracks_iff {session : Session} {run : Nat} {checker : CheckerRun}
    (hinv : session.Invariant) (hchecker : session.runs[run]? = some checker) :
    session.tracks checker.generation = true ↔ session.trackedRun? = some run := by
  cases hstate : session.state with
  | idle => simp [tracks, trackedRun?, hstate]
  | running current tracked =>
      obtain ⟨_, buffer, htracked⟩ := hinv.tracked current tracked hstate
      simp only [tracks, trackedRun?, hstate, beq_iff_eq, Option.some.injEq]
      constructor
      · intro hgeneration
        have hlength : tracked < session.generations.length := by
          rw [generations, List.length_map]
          exact (List.getElem?_eq_some_iff.1 htracked).1
        have hnodup : session.generations.Nodup := hinv.increasing.imp UInt64.ne_of_lt
        rw [← List.getElem?_inj hlength hnodup, generations, List.getElem?_map,
          List.getElem?_map, htracked, hchecker, hgeneration]
        rfl
      · rintro rfl
        rw [htracked] at hchecker
        exact congrArg CheckerRun.generation (Option.some.inj hchecker)

/-- A run that is watched and has not come to its end. -/
def IsPending (session : Session) (run : Nat) (checker : CheckerRun) : Prop :=
  session.runs[run]? = some checker ∧ checker.watched = true ∧ checker.finished = false

theorem complete_of_not_pending {session : Session} {run : Nat}
    (hpending : ∀ checker, ¬ session.IsPending run checker) (exit : CheckerExit) :
    session.complete run exit = (session, none) := by
  unfold complete
  split
  · rfl
  · next checker hchecker =>
      refine if_pos ?_
      cases hfinished : checker.finished with
      | true => rfl
      | false =>
          cases hwatched : checker.watched with
          | true => exact absurd ⟨hchecker, hwatched, hfinished⟩ (hpending checker)
          | false => rfl

theorem complete_of_isPending {session : Session} {run : Nat} {checker : CheckerRun}
    (hpending : session.IsPending run checker) (exit : CheckerExit) :
    session.complete run exit =
      if session.tracks checker.generation then
        ({ session.finishing run with state := .idle },
          some ⟨checker.generation, exit.code, Diagnostic.ofOutput exit.output checker.buffer⟩)
      else
        (session.finishing run, none) := by
  obtain ⟨hchecker, hwatched, hfinished⟩ := hpending
  simp [complete, hchecker, hwatched, hfinished, finishing]

/-- The end of a run changes nothing, or marks the run, or also stops tracking. -/
theorem complete_fst_cases (session : Session) (run : Nat) (exit : CheckerExit) :
    (session.complete run exit).1 = session ∨
      (session.complete run exit).1 = session.finishing run ∨
      (session.complete run exit).1 = { session.finishing run with state := .idle } := by
  by_cases hpending : ∃ checker, session.IsPending run checker
  · obtain ⟨checker, hpending⟩ := hpending
    rw [complete_of_isPending hpending]
    split
    · exact Or.inr (Or.inr rfl)
    · exact Or.inr (Or.inl rfl)
  · rw [complete_of_not_pending (not_exists.1 hpending)]
    exact Or.inl rfl

/-- The end of a pending run is reported exactly if the run is the tracked one. -/
theorem Invariant.complete_of_pending {session : Session} {run : Nat} {checker : CheckerRun}
    (hinv : session.Invariant) (hpending : session.IsPending run checker) (exit : CheckerExit) :
    session.complete run exit =
      if session.trackedRun? = some run then
        ({ session.finishing run with state := .idle },
          some ⟨checker.generation, exit.code, Diagnostic.ofOutput exit.output checker.buffer⟩)
      else
        (session.finishing run, none) := by
  rw [complete_of_isPending hpending]
  simp only [hinv.tracks_iff hpending.1]

section Finishing

variable {session : Session} {run : Nat} (hinv : session.Invariant)
include hinv

theorem Invariant.settled_finishing {other : Nat} {checker : CheckerRun}
    (hchecker : (session.finishing run).runs[other]? = some checker)
    (huntracked : other ≠ run → session.trackedRun? ≠ some other) :
    checker.killed = true ∨ checker.finished = true := by
  rw [runs_finishing, Option.map_eq_some_iff] at hchecker
  obtain ⟨before, hbefore, rfl⟩ := hchecker
  by_cases hother : run = other
  · simp [hother]
  · rw [if_neg hother]
    exact hinv.settled other before hbefore (huntracked (Ne.symm hother))

theorem Invariant.finishing_tracked (htracked : session.trackedRun? = some run) :
    Invariant { session.finishing run with state := .idle } where
  generation_eq := hinv.generation_eq
  increasing := (generations_finishing session run) ▸ hinv.increasing
  bounded := (generations_finishing session run) ▸ hinv.bounded
  tracked := nofun
  settled := by
    intro other checker hchecker _
    refine hinv.settled_finishing hchecker fun hne hother => hne ?_
    exact Option.some.inj (hother.symm.trans htracked)

theorem Invariant.finishing_untracked (huntracked : session.trackedRun? ≠ some run) :
    (session.finishing run).Invariant where
  generation_eq := hinv.generation_eq
  increasing := (generations_finishing session run) ▸ hinv.increasing
  bounded := (generations_finishing session run) ▸ hinv.bounded
  tracked := by
    intro generation other hstate
    obtain ⟨hgeneration, buffer, hother⟩ := hinv.tracked generation other hstate
    have hne : run ≠ other := by
      rintro rfl
      exact huntracked (by simp [trackedRun?, show session.state = _ from hstate])
    exact ⟨hgeneration, buffer, by simp [runs_finishing, hother, hne]⟩
  settled := fun other checker hchecker hother => hinv.settled_finishing hchecker fun _ => hother

theorem Invariant.complete (exit : CheckerExit) : (session.complete run exit).1.Invariant := by
  by_cases hpending : ∃ checker, session.IsPending run checker
  · obtain ⟨checker, hpending⟩ := hpending
    rw [hinv.complete_of_pending hpending]
    by_cases htracked : session.trackedRun? = some run
    · rw [if_pos htracked]
      exact hinv.finishing_tracked htracked
    · rw [if_neg htracked]
      exact hinv.finishing_untracked htracked
  · rw [complete_of_not_pending (not_exists.1 hpending)]
    exact hinv

end Finishing

/-! ### Steps and runs -/

theorem launched_complete (session : Session) (run : Nat) (exit : CheckerExit) :
    (session.complete run exit).1.launched = session.launched := by
  rcases complete_fst_cases session run exit with hsame | hmarked | hidle
  · rw [hsame]
  · rw [hmarked, finishing]
  · rw [hidle, finishing]

theorem launches_step (session : Session) (event : Event) :
    (session.step event).1.launches = session.launches + if event.asks then 1 else 0 := by
  cases event with
  | start resolution launch buffer =>
      cases resolution with
      | error error => rfl
      | ok command =>
          simp only [step, start_ok, Event.asks, if_true]
          have hasking : (session.asking command).launches = session.launches + 1 :=
            launches_asking
          rw [← hasking]
          cases launch <;> rfl
  | cancel => exact congrArg List.length (launched_cancel session)
  | close => exact congrArg List.length (launched_cancel session)
  | complete run exit => exact congrArg List.length (launched_complete session run exit)

theorem Invariant.step {session : Session} {event : Event} (hinv : session.Invariant)
    (hfit : (session.step event).1.launches < UInt64.size) : (session.step event).1.Invariant := by
  cases event with
  | start resolution launch buffer => exact hinv.start hfit
  | cancel => exact hinv.cancel
  | close => exact hinv.cancel
  | complete run exit => exact hinv.complete exit

theorem run_cons (session : Session) (event : Event) (rest : List Event) :
    session.run (event :: rest) =
      (((session.step event).1.run rest).1,
        (session.step event).2 :: ((session.step event).1.run rest).2) := rfl

theorem run_append (session : Session) (front back : List Event) :
    session.run (front ++ back) =
      (((session.run front).1.run back).1,
        (session.run front).2 ++ ((session.run front).1.run back).2) := by
  induction front generalizing session with
  | nil => rfl
  | cons event rest ih => simp [run_cons, ih]

theorem launches_run (session : Session) (events : List Event) :
    (session.run events).1.launches = session.launches + events.countP Event.asks := by
  induction events generalizing session with
  | nil => rfl
  | cons event rest ih =>
      rw [run_cons, ih, launches_step, List.countP_cons]
      omega

theorem launches_step_add {session : Session} {event : Event} {rest : List Event}
    (hfit : session.launches + (event :: rest).countP Event.asks < UInt64.size) :
    (session.step event).1.launches + rest.countP Event.asks < UInt64.size := by
  rw [List.countP_cons] at hfit
  rw [launches_step]
  omega

theorem Invariant.step_of_run {session : Session} {event : Event} {rest : List Event}
    (hinv : session.Invariant)
    (hfit : session.launches + (event :: rest).countP Event.asks < UInt64.size) :
    (session.step event).1.Invariant :=
  hinv.step (Nat.lt_of_le_of_lt (Nat.le_add_right _ _) (launches_step_add hfit))

theorem Invariant.run {session : Session} {events : List Event} (hinv : session.Invariant)
    (hfit : session.launches + events.countP Event.asks < UInt64.size) :
    (session.run events).1.Invariant := by
  induction events generalizing session with
  | nil => exact hinv
  | cons event rest ih => exact ih (hinv.step_of_run hfit) (launches_step_add hfit)

end HclEdit.Session
