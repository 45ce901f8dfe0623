import HclEdit.Proofs.Session.FailedStart
import HclEdit.Proofs.Session.Tracking

/-!
# Late ends

A run that was superseded or cancelled is left behind: whatever is tracked from then on was launched
after it, and so carries another generation as long as fewer than `2 ^ 64` launches lie between. Its
end, early or late, marks the run as finished and does nothing else. That mark is not looked at by
any other event, so the end can be put anywhere among the later events, or left out.
-/

namespace HclEdit.Session

/-! ### What stays of a run -/

/-- The generation of each run and whether it is watched, which do not change. -/
def origins (session : Session) : List (UInt64 × Bool) :=
  session.runs.map fun checker => (checker.generation, checker.watched)

theorem origins_cancel (session : Session) : session.cancel.origins = session.origins :=
  map_runs_cancel _ (fun _ => rfl) session

theorem origins_finishing (session : Session) (run : Nat) :
    (session.finishing run).origins = session.origins :=
  map_runs_finishing _ (fun _ => rfl) session run

theorem origins_complete (session : Session) (run : Nat) (exit : CheckerExit) :
    (session.complete run exit).1.origins = session.origins := by
  rcases complete_fst_cases session run exit with hsame | hmarked | hidle
  · rw [hsame]
  · rw [hmarked, origins_finishing]
  · rw [hidle]
    exact origins_finishing session run

theorem origins_prefix_step (session : Session) (event : Event) :
    session.origins <+: (session.step event).1.origins := by
  cases event with
  | start resolution launch buffer =>
      cases resolution with
      | error error => exact List.prefix_rfl
      | ok command =>
          have hasking : (session.asking command).origins = session.origins :=
            origins_cancel session
          have hadding : ∀ checker,
              session.origins <+: ((session.asking command).adding checker).origins := by
            intro checker
            rw [← hasking]
            exact ⟨_, (List.map_append ..).symm⟩
          simp only [step, start_ok]
          cases launch with
          | refused error => exact hasking ▸ List.prefix_rfl
          | withoutPipes => exact hadding _
          | piped => exact hadding _
  | cancel => exact origins_cancel session ▸ List.prefix_rfl
  | close => exact origins_cancel session ▸ List.prefix_rfl
  | complete run exit => exact origins_complete session run exit ▸ List.prefix_rfl

theorem origins_prefix_run (session : Session) (events : List Event) :
    session.origins <+: (session.run events).1.origins := by
  induction events generalizing session with
  | nil => exact List.prefix_rfl
  | cons event rest ih => exact (origins_prefix_step session event).trans (ih _)

/-! ### Generations, also beyond the last one -/

theorem generation_complete (session : Session) (run : Nat) (exit : CheckerExit) :
    (session.complete run exit).1.generation = session.generation := by
  rcases complete_fst_cases session run exit with hsame | hmarked | hidle
  · rw [hsame]
  · rw [hmarked, finishing]
  · rw [hidle, finishing]

theorem state_complete (session : Session) (run : Nat) (exit : CheckerExit) :
    (session.complete run exit).1.state = session.state ∨
      (session.complete run exit).1.state = .idle := by
  rcases complete_fst_cases session run exit with hsame | hmarked | hidle
  · exact Or.inl (congrArg Session.state hsame)
  · exact Or.inl (by rw [hmarked, finishing])
  · exact Or.inr (congrArg Session.state hidle)

theorem generation_step (session : Session) (event : Event) :
    (session.step event).1.generation =
      session.generation + UInt64.ofNat (if event.asks then 1 else 0) := by
  cases event with
  | start resolution launch buffer =>
      cases resolution with
      | error error => simp [step, start, Event.asks]
      | ok command =>
          simp only [step, start_ok, Event.asks, if_true]
          cases launch <;> rfl
  | cancel => simp [step, Event.asks]
  | close => simp [step, close, Event.asks]
  | complete run exit => simp [step, generation_complete, Event.asks]

theorem generation_run (session : Session) (events : List Event) :
    (session.run events).1.generation =
      session.generation + UInt64.ofNat (events.countP Event.asks) := by
  induction events generalizing session with
  | nil => simp [Session.run]
  | cons event rest ih =>
      rw [run_cons, ih, generation_step, List.countP_cons, Nat.add_comm, UInt64.ofNat_add,
        UInt64.add_assoc]

/-! ### Runs left behind -/

/-- The session has moved on from a generation, and what it tracks was launched since. -/
structure HasLeft (session : Session) (generation : UInt64) (asked : Nat) : Prop where
  generation_eq : session.generation = generation + UInt64.ofNat asked
  running : ∀ current run, session.state = .running current run →
    ∃ later, 0 < later ∧ later ≤ asked ∧ current = generation + UInt64.ofNat later

section HasLeft

variable {session : Session} {generation : UInt64} {asked : Nat}

theorem add_ofNat_ne {later : Nat} (hpos : 0 < later) (hlt : later < UInt64.size) :
    generation + UInt64.ofNat later ≠ generation := by
  intro heq
  have htoNat := congrArg UInt64.toNat heq
  have hbound := generation.toNat_lt
  rw [UInt64.toNat_add, UInt64.toNat_ofNat_of_lt' hlt] at htoNat
  unfold UInt64.size at hlt
  omega

theorem HasLeft.tracks_eq_false (hleft : session.HasLeft generation asked)
    (hfit : asked < UInt64.size) : session.tracks generation = false := by
  unfold tracks
  split
  · rfl
  · next current run hstate =>
      obtain ⟨later, hpos, hle, rfl⟩ := hleft.running current run hstate
      exact beq_eq_false_iff_ne.2 (add_ofNat_ne hpos (Nat.lt_of_le_of_lt hle hfit))

/-- Superseding what is tracked leaves all earlier generations. -/
theorem hasLeft_of_supersedes (hgeneration : session.generation = generation + UInt64.ofNat asked)
    {event : Event} (hsupersedes : event.supersedes = true) :
    (session.step event).1.HasLeft generation (asked + if event.asks then 1 else 0) where
  generation_eq := by
    rw [generation_step, hgeneration, UInt64.ofNat_add, UInt64.add_assoc]
  running := by
    intro current run hstate
    cases event with
    | start resolution launch buffer =>
        cases resolution with
        | error error => exact absurd hsupersedes Bool.false_ne_true
        | ok command =>
            have hasking : (session.asking command).state = .idle := state_asking
            simp only [step, start_ok] at hstate
            cases launch with
            | refused error => cases hasking.symm.trans hstate
            | withoutPipes => cases hasking.symm.trans hstate
            | piped =>
                obtain ⟨rfl, -⟩ := SessionState.running.inj hstate
                refine ⟨asked + 1, Nat.succ_pos asked, Nat.le_refl _, ?_⟩
                rw [hgeneration, UInt64.ofNat_add, UInt64.add_assoc]
                rfl
    | cancel => cases (state_cancel session).symm.trans hstate
    | close => cases (state_cancel session).symm.trans hstate
    | complete other exit => exact absurd hsupersedes Bool.false_ne_true

theorem HasLeft.step (hleft : session.HasLeft generation asked) (event : Event) :
    (session.step event).1.HasLeft generation (asked + if event.asks then 1 else 0) := by
  cases event with
  | start resolution launch buffer =>
      cases resolution with
      | error error => exact hleft
      | ok command => exact hasLeft_of_supersedes hleft.generation_eq rfl
  | cancel => exact hasLeft_of_supersedes hleft.generation_eq rfl
  | close => exact hasLeft_of_supersedes hleft.generation_eq rfl
  | complete run exit =>
      refine ⟨(generation_complete session run exit).trans hleft.generation_eq, ?_⟩
      intro current tracked hstate
      rcases state_complete session run exit with hsame | hidle
      · exact hleft.running current tracked (hsame.symm.trans hstate)
      · cases hidle.symm.trans hstate

theorem HasLeft.run (hleft : session.HasLeft generation asked) (events : List Event) :
    (session.run events).1.HasLeft generation (asked + events.countP Event.asks) := by
  induction events generalizing session asked with
  | nil => exact hleft
  | cons event rest ih =>
      have hrest := ih (hleft.step event)
      rw [run_cons, List.countP_cons, Nat.add_comm (rest.countP _), ← Nat.add_assoc]
      exact hrest

end HasLeft

/-- A watched run whose generation the session has left. -/
def LeftBehind (session : Session) (run asked : Nat) : Prop :=
  ∃ generation, session.origins[run]? = some (generation, true) ∧ session.HasLeft generation asked

theorem getElem?_of_prefix {α : Type} {front list : List α} (hfront : front <+: list)
    {index : Nat} {a : α} (ha : front[index]? = some a) : list[index]? = some a := by
  obtain ⟨back, rfl⟩ := hfront
  rw [List.getElem?_append_left (List.getElem?_eq_some_iff.1 ha).1, ha]

theorem LeftBehind.run {session : Session} {run asked : Nat} (hleft : session.LeftBehind run asked)
    (events : List Event) :
    (session.run events).1.LeftBehind run (asked + events.countP Event.asks) := by
  obtain ⟨generation, horigin, hgeneration⟩ := hleft
  exact ⟨generation, getElem?_of_prefix (origins_prefix_run session events) horigin,
    hgeneration.run events⟩

theorem LeftBehind.step {session : Session} {run asked : Nat}
    (hleft : session.LeftBehind run asked) (event : Event) :
    (session.step event).1.LeftBehind run (asked + if event.asks then 1 else 0) := by
  obtain ⟨generation, horigin, hgeneration⟩ := hleft
  exact ⟨generation, getElem?_of_prefix (origins_prefix_step session event) horigin,
    hgeneration.step event⟩

theorem Starts.generation_eq {events : List Event} {first : Nat} {ticket : Ticket} {buffer : Text}
    (hstarts : Starts events first ticket buffer) :
    (new.run (events.take (first + 1))).1.generation = ticket.generation := by
  obtain ⟨⟨resolution, launch, hevent⟩, hresponse⟩ := hstarts
  rw [responses_run, hevent] at hresponse
  have hticket := congrArg (Option.bind · Response.ticket?) hresponse
  rw [run_take_succ hevent]
  exact (generation_of_ticket hticket).2.symm

/-- A started run is left behind by the first event that supersedes it, for good. -/
theorem Starts.leftBehind {events : List Event} {first : Nat} {ticket : Ticket} {buffer : Text}
    (hstarts : Starts events first ticket buffer)
    (hsuperseded : ∃ event ∈ events.drop (first + 1), event.supersedes = true) :
    (new.run events).1.LeftBehind ticket.run
      ((events.drop (first + 1)).countP Event.asks) := by
  obtain ⟨event, hmem, hsupersedes⟩ := hsuperseded
  obtain ⟨between, after, hsplit⟩ := List.append_of_mem hmem
  obtain ⟨-, ⟨hchecker, -, -⟩, -⟩ := hstarts.pending
  have horigin : (new.run (events.take (first + 1))).1.origins[ticket.run]? =
      some (ticket.generation, true) := by
    rw [origins, List.getElem?_map, hchecker]
    rfl
  have hleft := (hasLeft_of_supersedes
    (generation_run (new.run (events.take (first + 1))).1 between) hsupersedes).run after
  have hwhole : (new.run events).1 =
      ((new.run (events.take (first + 1))).1.run (events.drop (first + 1))).1 := by
    have hrun := run_append new (events.take (first + 1)) (events.drop (first + 1))
    rw [List.take_append_drop] at hrun
    rw [hrun]
  refine ⟨ticket.generation, ?_, ?_⟩
  · rw [hwhole]
    exact getElem?_of_prefix (origins_prefix_run _ _) horigin
  · rw [hstarts.generation_eq] at hleft
    rw [hwhole, hsplit, run_append, run_cons, List.countP_append, List.countP_cons]
    have hasked : between.countP Event.asks + (after.countP Event.asks +
        if event.asks then 1 else 0) = between.countP Event.asks +
        (if event.asks then 1 else 0) + after.countP Event.asks := by omega
    rw [hasked]
    exact hleft

/-! ### Marking a run -/

theorem modify_comm {α : Type} {f g : α → α} (hfg : ∀ a, f (g a) = g (f a)) (index other : Nat)
    (list : List α) :
    (list.modify index f).modify other g = (list.modify other g).modify index f := by
  by_cases hindex : index = other
  · subst hindex
    rw [List.modify_modify_eq, List.modify_modify_eq]
    congr 1
    funext a
    exact (hfg a).symm
  · exact List.modify_modify_ne f g list hindex

theorem modify_append_of_lt {α : Type} (f : α → α) {list : List α} {index : Nat}
    (hindex : index < list.length) (back : List α) :
    (list ++ back).modify index f = list.modify index f ++ back := by
  induction list generalizing index with
  | nil => exact absurd hindex (Nat.not_lt_zero _)
  | cons first rest ih =>
      cases index with
      | zero => rfl
      | succ index => exact congrArg (first :: ·) (ih (Nat.lt_of_succ_lt_succ hindex))

theorem finishing_of_finished {session : Session} {run : Nat} {checker : CheckerRun}
    (hchecker : session.runs[run]? = some checker) (hfinished : checker.finished = true) :
    session.finishing run = session := by
  have hruns : (session.finishing run).runs = session.runs := by
    apply List.ext_getElem?
    intro other
    rw [runs_finishing]
    by_cases hother : run = other
    · subst hother
      rw [hchecker]
      simp [← hfinished]
    · simp [hother]
  exact congrArg (fun runs => { session with runs }) hruns

variable {session : Session} {run : Nat}

theorem cancel_finishing : (session.finishing run).cancel = session.cancel.finishing run := by
  cases hstate : session.state with
  | idle => simp [cancel, finishing, hstate]
  | running generation tracked =>
      have hruns := modify_comm (f := fun checker : CheckerRun => { checker with finished := true })
        (g := fun checker => { checker with killed := true }) (fun _ => rfl) run tracked
        session.runs
      simp only [cancel, finishing, hstate]
      rw [hruns]

theorem asking_finishing (command : Executable) :
    (session.finishing run).asking command = (session.asking command).finishing run := by
  rw [asking, cancel_finishing]
  rfl

section Started

variable (hrun : run < session.runs.length)
include hrun

theorem adding_finishing (checker : CheckerRun) :
    (session.finishing run).adding checker = (session.adding checker).finishing run := by
  simp only [adding, finishing]
  rw [modify_append_of_lt _ hrun]

theorem tracking_finishing (generation : UInt64) (buffer : Text) :
    (session.finishing run).tracking generation buffer =
      (session.tracking generation buffer).finishing run := by
  rw [tracking, adding_finishing hrun, length_runs_finishing]
  rfl

theorem start_finishing (resolution : Except StartError Executable) (launch : Launch)
    (buffer : Text) :
    (session.finishing run).start resolution launch buffer =
      ((session.start resolution launch buffer).1.finishing run,
        (session.start resolution launch buffer).2) := by
  cases resolution with
  | error error => rfl
  | ok command =>
      have hasking : run < (session.asking command).runs.length := by
        rwa [runs_asking, length_runs_cancel]
      rw [start_ok, start_ok, asking_finishing]
      cases launch with
      | refused error => rfl
      | withoutPipes => exact Prod.ext (adding_finishing hasking _) rfl
      | piped =>
          refine Prod.ext (tracking_finishing hasking _ _) ?_
          rw [length_runs_finishing]
          rfl

end Started

theorem finishing_comm (session : Session) (run other : Nat) :
    (session.finishing run).finishing other = (session.finishing other).finishing run := by
  simp only [finishing]
  rw [modify_comm fun _ => rfl]

theorem complete_finishing {other : Nat} (hother : other ≠ run) (exit : CheckerExit) :
    (session.finishing run).complete other exit =
      ((session.complete other exit).1.finishing run, (session.complete other exit).2) := by
  have hchecker : (session.finishing run).runs[other]? = session.runs[other]? := by
    rw [runs_finishing]
    simp [Ne.symm hother]
  by_cases hpending : ∃ checker, session.IsPending other checker
  · obtain ⟨checker, hpending⟩ := hpending
    have hmarked : (session.finishing run).IsPending other checker :=
      ⟨hchecker.trans hpending.1, hpending.2⟩
    have hfinishing := finishing_comm session run other
    rw [complete_of_isPending hpending, complete_of_isPending hmarked, hfinishing]
    cases htracks : session.tracks checker.generation with
    | true =>
        have hmarkedTracks : (session.finishing run).tracks checker.generation = true := htracks
        rw [hmarkedTracks]
        rfl
    | false =>
        have hmarkedTracks : (session.finishing run).tracks checker.generation = false := htracks
        rw [hmarkedTracks]
        rfl
  · have hunmarked : ∀ checker, ¬ (session.finishing run).IsPending other checker :=
      fun checker hmarked => hpending ⟨checker, hchecker.symm.trans hmarked.1, hmarked.2⟩
    rw [complete_of_not_pending hunmarked, complete_of_not_pending (not_exists.1 hpending)]

/-! ### The end of a run left behind -/

theorem LeftBehind.finishing {asked : Nat} (hleft : session.LeftBehind run asked) (other : Nat) :
    (session.finishing other).LeftBehind run asked := by
  obtain ⟨generation, horigin, hgeneration⟩ := hleft
  exact ⟨generation, (origins_finishing session other).symm ▸ horigin, hgeneration.generation_eq,
    hgeneration.running⟩

theorem LeftBehind.lt_length {asked : Nat} (hleft : session.LeftBehind run asked) :
    run < session.runs.length := by
  obtain ⟨generation, horigin, -⟩ := hleft
  have hlength := (List.getElem?_eq_some_iff.1 horigin).1
  rwa [origins, List.length_map] at hlength

section LeftBehind

variable {asked : Nat} (hleft : session.LeftBehind run asked) (hfit : asked < UInt64.size)
include hleft hfit

/-- Nothing comes of the end of a run left behind but its mark. -/
theorem LeftBehind.complete (exit : CheckerExit) :
    session.complete run exit = (session.finishing run, none) := by
  obtain ⟨generation, horigin, hgeneration⟩ := hleft
  rw [origins, List.getElem?_map, Option.map_eq_some_iff] at horigin
  obtain ⟨checker, hchecker, horigin⟩ := horigin
  obtain ⟨rfl, hwatched⟩ := Prod.mk.inj horigin
  cases hfinished : checker.finished with
  | true =>
      have hpending : ∀ other, ¬ session.IsPending run other := by
        rintro other ⟨hother, -, hunfinished⟩
        obtain rfl := Option.some.inj (hchecker.symm.trans hother)
        exact absurd (hfinished.symm.trans hunfinished) nofun
      rw [complete_of_not_pending hpending, finishing_of_finished hchecker hfinished]
  | false =>
      rw [complete_of_isPending ⟨hchecker, hwatched, hfinished⟩, hgeneration.tracks_eq_false hfit]
      rfl

theorem LeftBehind.step_finishing (event : Event) :
    (session.finishing run).step event =
      ((session.step event).1.finishing run, (session.step event).2) := by
  cases event with
  | start resolution launch buffer =>
      simp only [Session.step]
      rw [start_finishing hleft.lt_length]
  | cancel => exact Prod.ext cancel_finishing rfl
  | close => exact Prod.ext cancel_finishing rfl
  | complete other exit =>
      simp only [Session.step]
      by_cases hother : other = run
      · subst hother
        rw [hleft.complete hfit, (hleft.finishing other).complete hfit]
      · rw [complete_finishing hother]

omit hfit in
/-- **The mark is not looked at**, whatever happens later. -/
theorem LeftBehind.run_finishing {events : List Event}
    (hfit : asked + events.countP Event.asks < UInt64.size) :
    (session.finishing run).run events =
      ((session.run events).1.finishing run, (session.run events).2) := by
  induction events generalizing session asked with
  | nil => rfl
  | cons event rest ih =>
      rw [List.countP_cons] at hfit
      have hstep := hleft.step_finishing (by omega) event
      rw [run_cons, run_cons, hstep, ih (hleft.step event) (by omega)]

end LeftBehind

/-- The end of a run left behind can be put anywhere among later events. -/
theorem LeftBehind.run_insertIdx {asked : Nat} (hleft : session.LeftBehind run asked)
    {events : List Event} (hfit : asked + events.countP Event.asks < UInt64.size) {index : Nat}
    (hindex : index ≤ events.length) (exit : CheckerExit) :
    session.run (events.insertIdx index (.complete run exit)) =
      ((session.run events).1.finishing run,
        (session.run events).2.insertIdx index (.completed none)) := by
  have hlength : (events.take index).length = index := List.length_take_of_le hindex
  have hsplit := List.take_append_drop index events
  generalize events.take index = front at hlength hsplit
  generalize events.drop index = back at hsplit
  subst hlength hsplit
  rw [List.countP_append, ← Nat.add_assoc] at hfit
  have hfront := hleft.run front
  have hend : (session.run front).1.step (.complete run exit) =
      ((session.run front).1.finishing run, .completed none) := by
    rw [Session.step, hfront.complete (Nat.lt_of_le_of_lt (Nat.le_add_right _ _) hfit)]
  rw [insertIdx_append_length, run_append, run_append, run_cons, hend, hfront.run_finishing hfit,
    ← length_responses session front, insertIdx_append_length]

/-- **Late ends are inert.** Take a started run that some event since has superseded or cancelled,
and fewer than `2 ^ 64` launches since its start. Its end is not reported, and leaves the state, the
generation, the launches and whether a check is running as they are. Wherever among the later events
it is put, the last session is the one without it but for the mark on the run, and every other event
gets the response that it has without it; so moving the end changes nothing at all. -/
theorem late_end_is_inert {events rest : List Event} {first : Nat} {ticket : Ticket} {buffer : Text}
    (hstarts : Starts events first ticket buffer)
    (hsuperseded : ∃ event ∈ events.drop (first + 1), event.supersedes = true)
    (hcount : ((events ++ rest).drop (first + 1)).countP Event.asks < UInt64.size)
    (exit : CheckerExit) :
    (∃ ended,
      (new.run (events ++ rest)).1.step (.complete ticket.run exit) = (ended, .completed none) ∧
        ended.state = (new.run (events ++ rest)).1.state ∧
        ended.generation = (new.run (events ++ rest)).1.generation ∧
        ended.launched = (new.run (events ++ rest)).1.launched ∧
        ended.isRunning = (new.run (events ++ rest)).1.isRunning) ∧
    (∀ index ≤ rest.length,
      new.run (events ++ rest.insertIdx index (.complete ticket.run exit)) =
        ((new.run (events ++ rest)).1.finishing ticket.run,
          (new.run (events ++ rest)).2.insertIdx (events.length + index) (.completed none))) ∧
    ∀ index ≤ rest.length, ∀ other ≤ rest.length,
      ∀ here, new.run (events ++ rest.insertIdx index (.complete ticket.run exit)) = here →
      ∀ there, new.run (events ++ rest.insertIdx other (.complete ticket.run exit)) = there →
        here.1 = there.1 ∧
        here.2.eraseIdx (events.length + index) = there.2.eraseIdx (events.length + other) := by
  have hfirst : first < events.length := by
    obtain ⟨⟨_, _, hevent⟩, -⟩ := hstarts
    exact (List.getElem?_eq_some_iff.1 hevent).1
  rw [List.drop_append_of_le_length hfirst, List.countP_append] at hcount
  have hleft := hstarts.leftBehind hsuperseded
  have hinsert : ∀ index ≤ rest.length,
      new.run (events ++ rest.insertIdx index (.complete ticket.run exit)) =
        ((new.run (events ++ rest)).1.finishing ticket.run,
          (new.run (events ++ rest)).2.insertIdx (events.length + index) (.completed none)) := by
    intro index hindex
    rw [run_append, run_append, hleft.run_insertIdx hcount hindex exit,
      ← length_responses new events, insertIdx_length_add]
  refine ⟨?step, hinsert, ?moved⟩
  case step =>
    have hlast := hleft.run rest
    refine ⟨(new.run (events ++ rest)).1.finishing ticket.run, ?_, rfl, rfl, rfl, rfl⟩
    rw [run_append, Session.step, hlast.complete hcount]
  case moved =>
    rintro index hindex other hother _ rfl _ rfl
    rw [hinsert index hindex, hinsert other hother, List.eraseIdx_insertIdx_self,
      List.eraseIdx_insertIdx_self]
    exact ⟨rfl, rfl⟩

/-- The first check is superseded by the second one; then come a launch that fails, a third check
and its end. The end of the first check is put before or between them. -/
theorem late_end_overtaken :
    let asks (launch : Launch) (buffer : String) : Event :=
      .start (.ok ⟨"/bin/sh".toList, []⟩) launch buffer.toList
    let events := [asks .piped "a = 1", asks .piped "b ="]
    let third := [asks (.failed "no memory".toList) "c", asks .piped "d"]
    let late : Event := .complete 0 ⟨[], [], none⟩
    let ending : Event := .complete 2 ⟨[], [], some 1⟩
    Starts events 0 ⟨1, 0⟩ "a = 1".toList ∧
      (∃ event ∈ events.drop 1, event.supersedes = true) ∧
      ((events ++ (third ++ [ending])).drop 1).countP Event.asks < UInt64.size ∧
      (new.run (events ++ late :: (third ++ [ending]))).1 =
        (new.run (events ++ (third ++ [late, ending]))).1 ∧
      (new.run (events ++ late :: (third ++ [ending]))).2.eraseIdx 2 =
        (new.run (events ++ (third ++ [late, ending]))).2.eraseIdx 4 := by
  intro asks events third late ending
  have hstarts : Starts events 0 ⟨1, 0⟩ "a = 1".toList := ⟨⟨_, _, rfl⟩, rfl⟩
  have hsuperseded : ∃ event ∈ events.drop 1, event.supersedes = true :=
    ⟨asks .piped "b =", List.mem_singleton.2 rfl, rfl⟩
  have hcount : ((events ++ (third ++ [ending])).drop 1).countP Event.asks < UInt64.size := by
    rw [show ((events ++ (third ++ [ending])).drop 1).countP Event.asks = 3 from rfl]
    decide
  obtain ⟨-, -, hmoved⟩ := late_end_is_inert hstarts hsuperseded hcount ⟨[], [], none⟩
  exact ⟨hstarts, hsuperseded, hcount, hmoved 0 (by decide) 2 (by decide) _ rfl _ rfl⟩

end HclEdit.Session
