import HclEdit.Proofs.Session.Reporting

/-!
# One checker at most

A session may be asked to start, to cancel and to close in any order, and its checkers come to
their ends early or late. In every state that it can get into, the tracked run is the only one that
is neither killed nor finished, and it carries the generation of the session. That generation counts
the launches, so the tickets handed out carry increasing ones.
-/

namespace HclEdit.Session

/-- Whether an event brings up a checker, with its pipes or without. -/
def Event.brings : Event → Bool
  | .start (.ok _) .withoutPipes _ => true
  | .start (.ok _) .piped _ => true
  | _ => false

def Response.ticket? : Response → Option Ticket
  | .started (.ok ticket) => some ticket
  | _ => none

/-- The watcher of a started run has completed. -/
def Ended (events : List Event) (run : Nat) : Prop :=
  ∃ first last ticket buffer exit, Starts events first ticket buffer ∧ ticket.run = run ∧
    first < last ∧ events[last]? = some (.complete run exit)

/-- A run that has been brought up, and has neither been killed nor come to its end. -/
def IsAlive (events : List Event) (run : Nat) : Prop :=
  (∃ checker, (new.run events).1.runs[run]? = some checker ∧ checker.killed = false) ∧
    ¬ Ended events run

theorem trackedRun?_eq_some_iff {session : Session} {run : Nat} :
    session.trackedRun? = some run ↔ ∃ generation, session.state = .running generation run := by
  unfold trackedRun?
  cases session.state <;> simp

theorem isRunning_iff {session : Session} :
    session.isRunning = true ↔ ∃ run, session.trackedRun? = some run := by
  cases hstate : session.state with
  | idle => simp [isRunning, trackedRun?, hstate]
  | running generation run => simp [isRunning, trackedRun?, hstate]

/-! ### The tickets -/

/-- A ticket carries the generation that the session has from then on. -/
theorem generation_of_ticket {session : Session} {event : Event} {ticket : Ticket}
    (hticket : (session.step event).2.ticket? = some ticket) :
    event.asks = true ∧ ticket.generation = (session.step event).1.generation := by
  cases event with
  | start resolution launch buffer =>
      cases resolution with
      | error error => cases hticket
      | ok command =>
          simp only [step, start_ok] at hticket ⊢
          cases launch with
          | refused error => cases hticket
          | withoutPipes => cases hticket
          | piped =>
              obtain rfl := Option.some.inj hticket
              exact ⟨rfl, rfl⟩
  | cancel => cases hticket
  | close => cases hticket
  | complete run exit => cases hticket

theorem Invariant.generation_step {session : Session} {event : Event} (hinv : session.Invariant)
    (hfit : (session.step event).1.launches < UInt64.size) :
    (session.step event).1.generation.toNat =
      session.generation.toNat + if event.asks then 1 else 0 := by
  rw [(hinv.step hfit).generation_eq, hinv.generation_eq, launches_step]

/-- The tickets handed out along a run carry increasing generations, all of them new. -/
theorem Invariant.tickets_run {session : Session} {events : List Event} (hinv : session.Invariant)
    (hfit : session.launches + events.countP Event.asks < UInt64.size) :
    ((session.run events).2.filterMap Response.ticket?).Pairwise
        (fun earlier later => earlier.generation < later.generation) ∧
      ∀ ticket ∈ (session.run events).2.filterMap Response.ticket?,
        session.generation < ticket.generation := by
  induction events generalizing session with
  | nil => exact ⟨.nil, nofun⟩
  | cons event rest ih =>
      have hrest := launches_step_add hfit
      obtain ⟨hincreasing, hnew⟩ := ih (hinv.step_of_run hfit) hrest
      have hstep := hinv.generation_step (Nat.lt_of_le_of_lt (Nat.le_add_right _ _) hrest)
      rw [run_cons]
      cases hticket : (session.step event).2.ticket? with
      | none =>
          rw [List.filterMap_cons_none hticket]
          refine ⟨hincreasing, fun ticket hmem => ?_⟩
          have hlater := UInt64.lt_iff_toNat_lt.1 (hnew ticket hmem)
          rw [UInt64.lt_iff_toNat_lt]
          omega
      | some ticket =>
          obtain ⟨hasks, hgeneration⟩ := generation_of_ticket hticket
          rw [hasks, if_pos rfl, ← hgeneration] at hstep
          have hfirst : session.generation < ticket.generation := by
            rw [UInt64.lt_iff_toNat_lt]
            omega
          rw [← hgeneration] at hnew
          rw [List.filterMap_cons_some hticket]
          refine ⟨List.pairwise_cons.2 ⟨hnew, hincreasing⟩, ?_⟩
          intro other hmem
          rcases List.mem_cons.1 hmem with rfl | hmem
          · exact hfirst
          · exact UInt64.lt_trans hfirst (hnew other hmem)

/-! ### The runs that have come to their end -/

theorem length_runs_step (session : Session) (event : Event) :
    (session.step event).1.runs.length =
      session.runs.length + if event.brings then 1 else 0 := by
  cases event with
  | start resolution launch buffer =>
      cases resolution with
      | error error => rfl
      | ok command =>
          simp only [step, start_ok]
          cases launch <;>
            simp [Event.brings, adding, tracking, runs_asking, length_runs_cancel]
  | cancel => simp [step, Event.brings, length_runs_cancel]
  | close => simp [step, close, Event.brings, length_runs_cancel]
  | complete run exit => simp [step, Event.brings, length_runs_complete]

theorem length_runs_run (session : Session) (events : List Event) :
    (session.run events).1.runs.length = session.runs.length + events.countP Event.brings := by
  induction events generalizing session with
  | nil => rfl
  | cons event rest ih =>
      rw [run_cons, ih, length_runs_step, List.countP_cons]
      omega

/-- A run is finished by its own end alone, and only while it is pending. -/
theorem Invariant.pending_of_finished {session : Session} {event : Event} {run : Nat}
    {checker : CheckerRun} (hinv : session.Invariant)
    (hchecker : (session.step event).1.runs[run]? = some checker)
    (hfinished : checker.finished = true) :
    (∃ before, session.runs[run]? = some before ∧ before.finished = true) ∨
      ∃ exit pending, event = .complete run exit ∧ session.IsPending run pending := by
  by_cases hrun : run < session.runs.length
  · have hbefore := List.getElem?_eq_getElem hrun
    obtain ⟨later, hlater, -, hsame⟩ := runs_step_follows hinv event hbefore
    obtain rfl := Option.some.inj (hlater.symm.trans hchecker)
    by_cases hend : ∃ exit, event = .complete run exit
    · obtain ⟨exit, rfl⟩ := hend
      by_cases hpending : ∃ pending, session.IsPending run pending
      · obtain ⟨pending, hpending⟩ := hpending
        exact Or.inr ⟨exit, pending, rfl, hpending⟩
      · rw [Session.step, complete_of_not_pending (not_exists.1 hpending)] at hchecker
        exact Or.inl ⟨later, hchecker, hfinished⟩
    · exact Or.inl ⟨_, hbefore, (hsame (not_exists.1 hend)).symm.trans hfinished⟩
  · obtain ⟨command, launch, buffer, rfl, rfl | ⟨rfl, -⟩⟩ :=
      added_of_runs_step hchecker (Nat.le_of_not_lt hrun)
    · exact absurd hfinished Bool.false_ne_true
    · exact absurd hfinished Bool.false_ne_true

theorem exists_finished_complete {session : Session} {run : Nat} {checker : CheckerRun}
    (hchecker : session.runs[run]? = some checker) (hwatched : checker.watched = true)
    (exit : CheckerExit) : ∃ later, (session.complete run exit).1.runs[run]? = some later ∧
      later.finished = true := by
  cases hfinished : checker.finished with
  | true =>
      refine ⟨checker, ?_, hfinished⟩
      rw [complete_of_not_pending]
      · exact hchecker
      · rintro other ⟨hother, -, hpending⟩
        obtain rfl := Option.some.inj (hother.symm.trans hchecker)
        exact absurd (hpending.symm.trans hfinished) nofun
  | false =>
      have hmarked : (session.complete run exit).1.runs = (session.finishing run).runs := by
        rw [complete_of_isPending ⟨hchecker, hwatched, hfinished⟩]
        split <;> rfl
      refine ⟨{ checker with finished := true }, ?_, rfl⟩
      rw [hmarked, runs_finishing, hchecker]
      simp

section History

variable {events : List Event} (hcount : events.countP Event.asks < UInt64.size)
include hcount

/-- A finished run has come to its end some time after its start. -/
theorem ended_of_finished {count run : Nat} {checker : CheckerRun}
    (hchecker : (new.run (events.take count)).1.runs[run]? = some checker)
    (hfinished : checker.finished = true) :
    Ended events run := by
  induction count generalizing checker with
  | zero => exact absurd hchecker nofun
  | succ count ih =>
      by_cases hlength : count < events.length
      · have hevent := List.getElem?_eq_getElem hlength
        rw [run_take_succ hevent] at hchecker
        rcases (invariant_take hcount count).pending_of_finished hchecker hfinished with
          ⟨before, hbefore, hfinished⟩ | ⟨exit, pending, hend, hpending⟩
        · exact ih hbefore hfinished
        · obtain ⟨first, hfirst, ticket, hstarts, hrun, -⟩ :=
            exists_starts hcount hpending.1 hpending.2.1
          exact ⟨first, count, ticket, pending.buffer, exit, hstarts, hrun, hfirst,
            hevent.trans (congrArg some hend)⟩
      · rw [List.take_of_length_le (Nat.le_succ_of_le (Nat.le_of_not_lt hlength)),
          ← List.take_of_length_le (Nat.le_of_not_lt hlength)] at hchecker
        exact ih hchecker hfinished

/-- A started run whose watcher has completed is finished from then on. -/
theorem finished_of_ended {run : Nat} {checker : CheckerRun} (hended : Ended events run)
    (hchecker : (new.run events).1.runs[run]? = some checker) : checker.finished = true := by
  obtain ⟨first, last, ticket, buffer, exit, hstarts, rfl, hlt, hend⟩ := hended
  obtain ⟨-, hpending, -⟩ := hstarts.pending
  obtain ⟨before, hbefore, hfollows, -⟩ := runs_take_follows hcount hlt hpending.1
  obtain ⟨after, hafter, hfinished⟩ :=
    exists_finished_complete hbefore hfollows.watched_eq exit
  have hstep : (new.run (events.take (last + 1))).1.runs[ticket.run]? = some after := by
    rw [run_take_succ hend]
    exact hafter
  have hlength : last + 1 ≤ events.length := (List.getElem?_eq_some_iff.1 hend).1
  obtain ⟨later, hlater, hfollows, -⟩ := runs_take_follows hcount hlength hstep
  rw [List.take_length] at hlater
  obtain rfl := Option.some.inj (hlater.symm.trans hchecker)
  exact hfollows.finished_of_finished hfinished

theorem isAlive_iff {run : Nat} :
    IsAlive events run ↔ (new.run events).1.trackedRun? = some run := by
  have hinv := invariant_take hcount events.length
  rw [List.take_length] at hinv
  constructor
  · rintro ⟨⟨checker, hchecker, hkilled⟩, hended⟩
    refine Decidable.of_not_not fun huntracked => ?_
    rcases hinv.settled run checker hchecker huntracked with hsettled | hsettled
    · exact absurd (hkilled.symm.trans hsettled) nofun
    · rw [← List.take_length (l := events)] at hchecker
      exact hended (ended_of_finished hcount hchecker hsettled)
  · intro htracked
    obtain ⟨generation, hstate⟩ := trackedRun?_eq_some_iff.1 htracked
    obtain ⟨-, buffer, hchecker⟩ := hinv.tracked generation run hstate
    refine ⟨⟨_, hchecker, rfl⟩, fun hended => ?_⟩
    exact absurd (finished_of_ended hcount hended hchecker) nofun

end History

/-- **One checker at most.** Whatever happens to a session, as long as its generation does not wrap
around: a tracked run carries the generation of the session, which counts the launches; the tickets
carry increasing generations; and of all checkers ever brought up, those that are not tracked were
killed or came to their end after their start, so that one is alive exactly while the session is
running, and never more than one. -/
theorem tracked_run_alone_is_alive (events : List Event)
    (hcount : events.countP Event.asks < UInt64.size) :
    (∀ generation run, (new.run events).1.state = .running generation run →
        generation = (new.run events).1.generation) ∧
      ((new.run events).1.generation.toNat = (new.run events).1.launches ∧
        (new.run events).1.launches = events.countP Event.asks) ∧
      ((new.run events).2.filterMap Response.ticket?).Pairwise
        (fun earlier later => earlier.generation < later.generation) ∧
      (new.run events).1.runs.length = events.countP Event.brings ∧
      (∀ run checker, (new.run events).1.runs[run]? = some checker →
        (∀ generation, (new.run events).1.state ≠ .running generation run) →
        checker.killed = true ∨ Ended events run) ∧
      (∀ run other, IsAlive events run → IsAlive events other → run = other) ∧
      ((new.run events).1.isRunning = true ↔ ∃ run, IsAlive events run) := by
  have hlaunches : new.launches + events.countP Event.asks < UInt64.size := by
    rwa [show new.launches = 0 from rfl, Nat.zero_add]
  have hinv := invariant_new.run hlaunches
  refine ⟨?generation, ⟨hinv.generation_eq, ?launches⟩, ?tickets, ?runs, ?others, ?one, ?running⟩
  case generation => exact fun generation run hstate => (hinv.tracked generation run hstate).1
  case launches => rw [launches_run, show new.launches = 0 from rfl, Nat.zero_add]
  case tickets => exact (invariant_new.tickets_run hlaunches).1
  case runs => rw [length_runs_run, show new.runs.length = 0 from rfl, Nat.zero_add]
  case others =>
    intro run checker hchecker hstate
    have huntracked : (new.run events).1.trackedRun? ≠ some run := by
      intro htracked
      obtain ⟨generation, htracks⟩ := trackedRun?_eq_some_iff.1 htracked
      exact hstate generation htracks
    refine (hinv.settled run checker hchecker huntracked).imp_right fun hfinished => ?_
    rw [← List.take_length (l := events)] at hchecker
    exact ended_of_finished hcount hchecker hfinished
  case one =>
    intro run other hrun hother
    rw [isAlive_iff hcount] at hrun hother
    exact Option.some.inj (hrun.symm.trans hother)
  case running =>
    rw [isRunning_iff]
    exact exists_congr fun run => (isAlive_iff hcount).symm

/-- A check is superseded three times, by a checker without pipes, by one that cannot be launched
and by one that stays, and comes to its end late. -/
def restarted : List Event :=
  [ .start (.ok ⟨"/bin/sh".toList, []⟩) .piped "a = 1".toList,
    .start (.ok ⟨"/bin/sh".toList, []⟩) .withoutPipes "b".toList,
    .start (.ok ⟨"/bin/sh".toList, []⟩) (.failed "no memory".toList) "c".toList,
    .start (.ok ⟨"/bin/sh".toList, []⟩) .piped "d".toList,
    .complete 0 ⟨[], [], none⟩ ]

theorem tracked_run_restarted :
    restarted.countP Event.asks < UInt64.size ∧
      (new.run restarted).1.state = .running 4 2 ∧ (new.run restarted).1.generation = 4 ∧
      (new.run restarted).1.launches = 4 ∧ (new.run restarted).1.runs.length = 3 ∧
      Ended restarted 0 ∧ IsAlive restarted 2 ∧ (∀ run, IsAlive restarted run → run = 2) ∧
      (new.run restarted).1.isRunning = true := by
  have hcount : restarted.countP Event.asks < UInt64.size := by
    rw [show restarted.countP Event.asks = 4 from rfl]
    decide
  obtain ⟨hgeneration, ⟨-, hlaunches⟩, -, hruns, -, hone, hrunning⟩ :=
    tracked_run_alone_is_alive restarted hcount
  have hstate : (new.run restarted).1.state = .running 4 2 := rfl
  have hended : Ended restarted 0 :=
    ⟨0, 4, ⟨1, 0⟩, "a = 1".toList, ⟨[], [], none⟩, ⟨⟨_, _, rfl⟩, rfl⟩, rfl, by decide, rfl⟩
  have halive : IsAlive restarted 2 := by
    refine ⟨⟨_, rfl, rfl⟩, ?_⟩
    rintro ⟨first, last, ticket, buffer, exit, -, -, -, hend⟩
    exact absurd (List.mem_of_getElem? hend) (by simp [restarted])
  exact ⟨hcount, hstate, (hgeneration 4 2 hstate).symm, hlaunches, hruns, hended, halive,
    fun run hrun => hone run 2 hrun halive, hrunning.2 ⟨2, halive⟩⟩

end HclEdit.Session
