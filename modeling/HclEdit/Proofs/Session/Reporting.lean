import HclEdit.Proofs.Session.Invariant

/-!
# Only the current run reports

Whether a run reports at its end depends on one comparison of generations. By the invariant that
comparison asks whether the run is the tracked one, and a run stays tracked from its start on until
an event supersedes it. Runs that come to an end, early or late, do not matter to the others.
-/

namespace HclEdit

/-- A later state of the same run: it may have been killed or have come to its end meanwhile. -/
structure CheckerRun.Follows (later earlier : CheckerRun) : Prop where
  generation_eq : later.generation = earlier.generation
  buffer_eq : later.buffer = earlier.buffer
  watched_eq : later.watched = earlier.watched
  finished_of_finished : earlier.finished = true → later.finished = true

namespace CheckerRun

theorem Follows.refl (checker : CheckerRun) : checker.Follows checker :=
  ⟨rfl, rfl, rfl, id⟩

theorem Follows.trans {last later earlier : CheckerRun} (hlast : last.Follows later)
    (hlater : later.Follows earlier) : last.Follows earlier where
  generation_eq := hlast.generation_eq.trans hlater.generation_eq
  buffer_eq := hlast.buffer_eq.trans hlater.buffer_eq
  watched_eq := hlast.watched_eq.trans hlater.watched_eq
  finished_of_finished := fun h => hlast.finished_of_finished (hlater.finished_of_finished h)

end CheckerRun

namespace Session

/-- Whether an event takes over from the tracked run, or just stops it. -/
def Event.supersedes : Event → Bool
  | .start (.ok _) _ _ => true
  | .cancel => true
  | .close => true
  | _ => false

/-- The event at an index starts a check of a buffer. -/
def Starts (events : List Event) (index : Nat) (ticket : Ticket) (buffer : Text) : Prop :=
  (∃ resolution launch, events[index]? = some (.start resolution launch buffer)) ∧
    (new.run events).2[index]? = some (.started (.ok ticket))

/-- The event at an index is the end of a run, and hands a report to the callback of that run. -/
def Delivers (events : List Event) (index run : Nat) (exit : CheckerExit) (report : Report) :
    Prop :=
  events[index]? = some (.complete run exit) ∧
    (new.run events).2[index]? = some (.completed (some report))

/-! ### The runs after a step -/

section Step

variable {session : Session} {run : Nat} {checker : CheckerRun}

theorem runs_cancel_follows (hchecker : session.runs[run]? = some checker) :
    ∃ later, session.cancel.runs[run]? = some later ∧ later.Follows checker ∧
      later.finished = checker.finished := by
  rw [runs_cancel, hchecker]
  refine ⟨_, rfl, ?_⟩
  split <;> exact ⟨⟨rfl, rfl, rfl, id⟩, rfl⟩

theorem runs_start_follows (resolution : Except StartError Executable) (launch : Launch)
    (buffer : Text) (hchecker : session.runs[run]? = some checker) :
    ∃ later, (session.start resolution launch buffer).1.runs[run]? = some later ∧
      later.Follows checker ∧ later.finished = checker.finished := by
  cases resolution with
  | error error => exact ⟨checker, hchecker, .refl checker, rfl⟩
  | ok command =>
      obtain ⟨later, hlater, hfollows⟩ := runs_cancel_follows hchecker
      have hlength : run < session.cancel.runs.length := (List.getElem?_eq_some_iff.1 hlater).1
      refine ⟨later, ?_, hfollows⟩
      rw [start_ok]
      cases launch with
      | refused error => exact hlater
      | withoutPipes => exact (List.getElem?_append_left hlength).trans hlater
      | piped => exact (List.getElem?_append_left hlength).trans hlater

theorem runs_complete_follows (hinv : session.Invariant) (other : Nat) (exit : CheckerExit)
    (hchecker : session.runs[run]? = some checker) :
    ∃ later, (session.complete other exit).1.runs[run]? = some later ∧ later.Follows checker ∧
      (other ≠ run → later.finished = checker.finished) := by
  by_cases hpending : ∃ ending, session.IsPending other ending
  · obtain ⟨ending, hpending⟩ := hpending
    have hruns : (session.complete other exit).1.runs = (session.finishing other).runs := by
      rw [hinv.complete_of_pending hpending]
      split <;> rfl
    rw [hruns, runs_finishing, hchecker]
    refine ⟨_, rfl, ?_⟩
    dsimp only
    by_cases hother : other = run
    · rw [if_pos hother]
      exact ⟨⟨rfl, rfl, rfl, fun _ => rfl⟩, fun hne => absurd hother hne⟩
    · rw [if_neg hother]
      exact ⟨.refl checker, fun _ => rfl⟩
  · rw [complete_of_not_pending (not_exists.1 hpending)]
    exact ⟨checker, hchecker, .refl checker, fun _ => rfl⟩

theorem runs_step_follows (hinv : session.Invariant) (event : Event)
    (hchecker : session.runs[run]? = some checker) :
    ∃ later, (session.step event).1.runs[run]? = some later ∧ later.Follows checker ∧
      ((∀ exit, event ≠ .complete run exit) → later.finished = checker.finished) := by
  cases event with
  | start resolution launch buffer =>
      obtain ⟨later, hlater, hfollows, hfinished⟩ :=
        runs_start_follows resolution launch buffer hchecker
      exact ⟨later, hlater, hfollows, fun _ => hfinished⟩
  | cancel =>
      obtain ⟨later, hlater, hfollows, hfinished⟩ := runs_cancel_follows hchecker
      exact ⟨later, hlater, hfollows, fun _ => hfinished⟩
  | close =>
      obtain ⟨later, hlater, hfollows, hfinished⟩ := runs_cancel_follows hchecker
      exact ⟨later, hlater, hfollows, fun _ => hfinished⟩
  | complete other exit =>
      obtain ⟨later, hlater, hfollows, hfinished⟩ := runs_complete_follows hinv other exit hchecker
      refine ⟨later, hlater, hfollows, fun hevent => hfinished ?_⟩
      rintro rfl
      exact hevent exit rfl

theorem length_runs_complete (session : Session) (other : Nat) (exit : CheckerExit) :
    (session.complete other exit).1.runs.length = session.runs.length := by
  rcases complete_fst_cases session other exit with hsame | hmarked | hidle
  · rw [hsame]
  · rw [hmarked, length_runs_finishing]
  · rw [hidle, length_runs_finishing]

/-- A run comes into being only at a start, killed at once or answered with a ticket. -/
theorem added_of_runs_step {event : Event}
    (hchecker : (session.step event).1.runs[run]? = some checker)
    (hnew : session.runs.length ≤ run) :
    ∃ command launch buffer, event = .start (.ok command) launch buffer ∧
      (checker = ⟨session.generation + 1, buffer, false, true, false⟩ ∨
        checker = ⟨session.generation + 1, buffer, true, false, false⟩ ∧
          (session.step event).2 = .started (.ok ⟨checker.generation, run⟩)) := by
  have hrun := (List.getElem?_eq_some_iff.1 hchecker).1
  cases event with
  | start resolution launch buffer =>
      cases resolution with
      | error error => exact absurd hrun (Nat.not_lt.2 hnew)
      | ok command =>
          refine ⟨command, launch, buffer, rfl, ?_⟩
          simp only [step, start_ok] at hchecker ⊢
          have hold : ∀ later, (session.asking command).runs[run]? ≠ some later := by
            intro later hlater
            have hlength := (List.getElem?_eq_some_iff.1 hlater).1
            rw [runs_asking, length_runs_cancel] at hlength
            omega
          cases launch with
          | refused error => exact absurd hchecker (hold checker)
          | withoutPipes => exact Or.inl ((runs_adding hchecker).resolve_left (hold checker)).2
          | piped =>
              obtain ⟨hlength, rfl⟩ := (runs_adding hchecker).resolve_left (hold checker)
              rw [runs_asking, length_runs_cancel] at hlength
              exact Or.inr ⟨rfl, by rw [hlength]⟩
  | cancel => exact absurd hrun (by simp [step, length_runs_cancel, hnew])
  | close => exact absurd hrun (by simp [step, close, length_runs_cancel, hnew])
  | complete other exit => exact absurd hrun (by simp [step, length_runs_complete, hnew])

/-- A watched run comes into being only when its start is answered with a ticket. -/
theorem started_of_runs_step {event : Event}
    (hchecker : (session.step event).1.runs[run]? = some checker)
    (hwatched : checker.watched = true) (hnew : session.runs.length ≤ run) :
    (∃ resolution launch, event = .start resolution launch checker.buffer) ∧
      (session.step event).2 = .started (.ok ⟨checker.generation, run⟩) := by
  obtain ⟨command, launch, buffer, rfl, rfl | ⟨rfl, hresponse⟩⟩ :=
    added_of_runs_step hchecker hnew
  · exact absurd hwatched Bool.false_ne_true
  · exact ⟨⟨_, _, rfl⟩, hresponse⟩

/-- A run that has started stays the tracked one exactly until an event supersedes it. -/
theorem trackedRun?_step (hinv : session.Invariant) {event : Event}
    (hrun : run < session.runs.length) (hevent : ∀ exit, event ≠ .complete run exit) :
    (session.step event).1.trackedRun? = some run ↔
      session.trackedRun? = some run ∧ event.supersedes = false := by
  cases event with
  | start resolution launch buffer =>
      cases resolution with
      | error error => simp [step, start, Event.supersedes]
      | ok command =>
          have hnew : session.runs.length ≠ run := by omega
          simp only [step, start_ok, Event.supersedes, Bool.true_eq_false, and_false, iff_false]
          cases launch with
          | refused error => simp [trackedRun?]
          | withoutPipes => simp [trackedRun?, adding]
          | piped => simp [trackedRun?, tracking, runs_asking, length_runs_cancel, hnew]
  | cancel => simp [step, Event.supersedes]
  | close => simp [step, close, Event.supersedes]
  | complete other exit =>
      have hother : other ≠ run := by
        rintro rfl
        exact hevent exit rfl
      simp only [step, Event.supersedes, and_true]
      by_cases hpending : ∃ ending, session.IsPending other ending
      · obtain ⟨ending, hpending⟩ := hpending
        rw [hinv.complete_of_pending hpending]
        by_cases htracked : session.trackedRun? = some other
        · rw [if_pos htracked, htracked]
          simp [trackedRun?, hother]
        · rw [if_neg htracked]
          rfl
      · rw [complete_of_not_pending (not_exists.1 hpending)]

end Step

/-! ### The runs after many steps -/

theorem responses_run (session : Session) (events : List Event) (index : Nat) :
    (session.run events).2[index]? =
      events[index]?.map fun event => ((session.run (events.take index)).1.step event).2 := by
  induction events generalizing session index with
  | nil => rfl
  | cons event rest ih =>
      cases index with
      | zero => rfl
      | succ index =>
          rw [run_cons, List.getElem?_cons_succ, List.getElem?_cons_succ, ih, List.take_succ_cons,
            run_cons]

theorem runs_run_follows {session : Session} {events : List Event} {run : Nat}
    {checker : CheckerRun} (hinv : session.Invariant)
    (hfit : session.launches + events.countP Event.asks < UInt64.size)
    (hchecker : session.runs[run]? = some checker) :
    ∃ later, (session.run events).1.runs[run]? = some later ∧ later.Follows checker ∧
      ((∀ event ∈ events, ∀ exit, event ≠ .complete run exit) →
        later.finished = checker.finished) := by
  induction events generalizing session checker with
  | nil => exact ⟨checker, hchecker, .refl checker, fun _ => rfl⟩
  | cons event rest ih =>
      have hrest := launches_step_add hfit
      obtain ⟨next, hnext, hfollows, hfinished⟩ := runs_step_follows hinv event hchecker
      obtain ⟨later, hlater, hfollows', hfinished'⟩ := ih (hinv.step_of_run hfit) hrest hnext
      refine ⟨later, hlater, hfollows'.trans hfollows, fun hevents => ?_⟩
      rw [List.forall_mem_cons] at hevents
      exact (hfinished' hevents.2).trans (hfinished hevents.1)

theorem trackedRun?_run {session : Session} {events : List Event} {run : Nat}
    (hinv : session.Invariant) (hfit : session.launches + events.countP Event.asks < UInt64.size)
    (hrun : run < session.runs.length)
    (hevents : ∀ event ∈ events, ∀ exit, event ≠ .complete run exit) :
    (session.run events).1.trackedRun? = some run ↔
      session.trackedRun? = some run ∧ ∀ event ∈ events, event.supersedes = false := by
  induction events generalizing session with
  | nil => simp [Session.run]
  | cons event rest ih =>
      rw [List.forall_mem_cons] at hevents
      obtain ⟨next, hnext, -, -⟩ := runs_step_follows hinv event (List.getElem?_eq_getElem hrun)
      have hrun' : run < (session.step event).1.runs.length := (List.getElem?_eq_some_iff.1 hnext).1
      rw [run_cons, ih (hinv.step_of_run hfit) (launches_step_add hfit) hrun' hevents.2,
        trackedRun?_step hinv hrun hevents.1, List.forall_mem_cons, and_assoc]

/-! ### A sequence of events from a new session -/

section History

variable {events : List Event}

theorem mem_drop_take_iff {event : Event} {first last : Nat} :
    event ∈ (events.take last).drop first ↔
      ∃ index, first ≤ index ∧ index < last ∧ events[index]? = some event := by
  rw [List.mem_iff_getElem?]
  constructor
  · rintro ⟨offset, hoffset⟩
    rw [List.getElem?_drop, List.getElem?_take] at hoffset
    split at hoffset
    · next hlast => exact ⟨first + offset, Nat.le_add_right _ _, hlast, hoffset⟩
    · exact absurd hoffset nofun
  · rintro ⟨index, hfirst, hlast, hevent⟩
    refine ⟨index - first, ?_⟩
    rw [List.getElem?_drop, List.getElem?_take, Nat.add_sub_cancel' hfirst, if_pos hlast, hevent]

theorem run_take_eq {first last : Nat} (hle : first ≤ last) :
    (new.run (events.take last)).1 =
      ((new.run (events.take first)).1.run ((events.take last).drop first)).1 := by
  have hsplit : events.take last = events.take first ++ (events.take last).drop first := by
    have hfront : (events.take last).take first = events.take first := by
      rw [List.take_take, Nat.min_eq_left hle]
    rw [← hfront]
    exact (List.take_append_drop first (events.take last)).symm
  rw [congrArg new.run hsplit, run_append]

theorem run_take_succ {index : Nat} {event : Event} (hevent : events[index]? = some event) :
    (new.run (events.take (index + 1))).1 = ((new.run (events.take index)).1.step event).1 := by
  rw [List.take_add_one, hevent, run_append]
  rfl

theorem Starts.pending {index : Nat} {ticket : Ticket} {buffer : Text}
    (hstarts : Starts events index ticket buffer) :
    (new.run (events.take index)).1.runs.length = ticket.run ∧
      (new.run (events.take (index + 1))).1.IsPending ticket.run
        ⟨ticket.generation, buffer, true, false, false⟩ ∧
      (new.run (events.take (index + 1))).1.trackedRun? = some ticket.run := by
  obtain ⟨⟨resolution, launch, hevent⟩, hresponse⟩ := hstarts
  rw [responses_run, hevent] at hresponse
  rw [run_take_succ hevent]
  simp only [Option.map_some, Option.some.injEq, step, Response.started.injEq] at hresponse ⊢
  cases resolution with
  | error error => cases hresponse
  | ok command =>
      rw [start_ok] at hresponse ⊢
      cases launch with
      | refused error => cases hresponse
      | withoutPipes => cases hresponse
      | piped =>
          obtain rfl := Except.ok.inj hresponse
          simp [IsPending, trackedRun?, tracking, adding, runs_asking, length_runs_cancel]

variable (hcount : events.countP Event.asks < UInt64.size)
include hcount

theorem fits_of_le {first last : Nat} (hle : first ≤ last) :
    (new.run (events.take first)).1.launches +
      ((events.take last).drop first).countP Event.asks < UInt64.size := by
  have htake : (new.run (events.take last)).1 =
      ((new.run (events.take first)).1.run ((events.take last).drop first)).1 := run_take_eq hle
  have hlaunches := congrArg launches htake
  rw [launches_run, launches_run] at hlaunches
  have hle := (List.take_sublist last events).countP_le (p := Event.asks)
  have hnew : new.launches = 0 := rfl
  omega

theorem invariant_take (index : Nat) : (new.run (events.take index)).1.Invariant := by
  refine invariant_new.run ?_
  have hle := (List.take_sublist index events).countP_le (p := Event.asks)
  have hnew : new.launches = 0 := rfl
  omega

theorem runs_take_follows {first last run : Nat} {checker : CheckerRun} (hle : first ≤ last)
    (hchecker : (new.run (events.take first)).1.runs[run]? = some checker) :
    ∃ later, (new.run (events.take last)).1.runs[run]? = some later ∧ later.Follows checker ∧
      ((∀ index exit, first ≤ index → index < last →
          events[index]? ≠ some (.complete run exit)) → later.finished = checker.finished) := by
  obtain ⟨later, hlater, hfollows, hfinished⟩ :=
    runs_run_follows (invariant_take hcount first) (fits_of_le hcount hle) hchecker
  rw [← run_take_eq hle] at hlater
  refine ⟨later, hlater, hfollows, fun hevents => hfinished ?_⟩
  rintro event hmem exit rfl
  obtain ⟨index, hfirst, hlast, hevent⟩ := mem_drop_take_iff.1 hmem
  exact hevents index exit hfirst hlast hevent

/-- A report goes out exactly when the run is pending and tracked, and it is about that run. -/
theorem delivers_iff {index run : Nat} {exit : CheckerExit} {report : Report} :
    Delivers events index run exit report ↔
      events[index]? = some (.complete run exit) ∧
        ∃ checker, (new.run (events.take index)).1.IsPending run checker ∧
          (new.run (events.take index)).1.trackedRun? = some run ∧
          report =
            ⟨checker.generation, exit.code, Diagnostic.ofOutput exit.output checker.buffer⟩ := by
  have hinv := invariant_take hcount index
  refine and_congr_right fun hevent => ?_
  rw [responses_run, hevent]
  simp only [Option.map_some, Option.some.injEq, step, Response.completed.injEq]
  by_cases hpending : ∃ checker, (new.run (events.take index)).1.IsPending run checker
  · obtain ⟨checker, hpending⟩ := hpending
    rw [hinv.complete_of_pending hpending]
    constructor
    · intro hreport
      split at hreport
      · next htracked => exact ⟨checker, hpending, htracked, (Option.some.inj hreport).symm⟩
      · cases hreport
    · rintro ⟨other, hother, htracked, rfl⟩
      have hchecker : checker = other := Option.some.inj (hpending.1.symm.trans hother.1)
      rw [if_pos htracked, hchecker]
  · rw [complete_of_not_pending (not_exists.1 hpending)]
    constructor
    · intro hreport
      cases hreport
    · rintro ⟨checker, hchecker, -⟩
      exact absurd ⟨checker, hchecker⟩ hpending

theorem Delivers.finished {index run : Nat} {exit : CheckerExit} {report : Report}
    (hdelivers : Delivers events index run exit report) :
    ∃ checker, (new.run (events.take (index + 1))).1.runs[run]? = some checker ∧
      checker.finished = true := by
  obtain ⟨hevent, checker, hpending, htracked, -⟩ := (delivers_iff hcount).1 hdelivers
  rw [run_take_succ hevent]
  simp only [step]
  rw [(invariant_take hcount index).complete_of_pending hpending, if_pos htracked]
  exact ⟨{ checker with finished := true }, by simp [runs_finishing, hpending.1], rfl⟩

theorem exists_starts {count run : Nat} {checker : CheckerRun}
    (hchecker : (new.run (events.take count)).1.runs[run]? = some checker)
    (hwatched : checker.watched = true) :
    ∃ index < count, ∃ ticket, Starts events index ticket checker.buffer ∧ ticket.run = run ∧
      ticket.generation = checker.generation := by
  induction count generalizing checker with
  | zero => exact absurd hchecker nofun
  | succ count ih =>
      by_cases hlength : count < events.length
      · have hevent := List.getElem?_eq_getElem hlength
        by_cases hrun : run < (new.run (events.take count)).1.runs.length
        · obtain ⟨later, hlater, hfollows, -⟩ := runs_take_follows hcount (Nat.le_succ count)
            (List.getElem?_eq_getElem hrun)
          obtain rfl := Option.some.inj (hlater.symm.trans hchecker)
          obtain ⟨index, hindex, ticket, hstarts, hticket, hgeneration⟩ :=
            ih (List.getElem?_eq_getElem hrun) (hfollows.watched_eq.symm.trans hwatched)
          rw [← hfollows.buffer_eq] at hstarts
          exact ⟨index, Nat.lt_succ_of_lt hindex, ticket, hstarts, hticket,
            hgeneration.trans hfollows.generation_eq.symm⟩
        · rw [run_take_succ hevent] at hchecker
          obtain ⟨⟨resolution, launch, hstart⟩, hresponse⟩ :=
            started_of_runs_step hchecker hwatched (Nat.le_of_not_lt hrun)
          refine ⟨count, Nat.lt_succ_self count, ⟨checker.generation, run⟩, ⟨?_, ?_⟩, rfl, rfl⟩
          · exact ⟨resolution, launch, hevent.trans (congrArg some hstart)⟩
          · rw [responses_run, hevent]
            exact congrArg some hresponse
      · rw [List.take_of_length_le (by omega)] at hchecker
        rw [← List.take_of_length_le (Nat.le_of_not_lt hlength)] at hchecker
        obtain ⟨index, hindex, hstarts⟩ := ih hchecker hwatched
        exact ⟨index, Nat.lt_succ_of_lt hindex, hstarts⟩

/-- The end of a started run is reported exactly if nothing superseded the run since its start. -/
theorem Starts.delivers_iff {first last : Nat} {ticket : Ticket} {buffer : Text}
    {exit : CheckerExit} (hstarts : Starts events first ticket buffer) (hlt : first < last)
    (hend : events[last]? = some (.complete ticket.run exit))
    (hfirst : ∀ index exit', first < index → index < last →
      events[index]? ≠ some (.complete ticket.run exit')) (report : Report) :
    Delivers events last ticket.run exit report ↔
      (∀ index event, first < index → index < last → events[index]? = some event →
          event.supersedes = false) ∧
        report =
          ⟨ticket.generation, exit.code, Diagnostic.ofOutput exit.output buffer⟩ := by
  obtain ⟨-, hpending, htracked⟩ := hstarts.pending
  obtain ⟨later, hlater, hfollows, hfinished⟩ := runs_take_follows hcount hlt hpending.1
  have hpending' : (new.run (events.take last)).1.IsPending ticket.run later :=
    ⟨hlater, hfollows.watched_eq, hfinished hfirst⟩
  have hbetween : ∀ event ∈ (events.take last).drop (first + 1),
      ∀ exit', event ≠ .complete ticket.run exit' := by
    rintro event hmem exit' rfl
    obtain ⟨index, hgt, hbelow, hevent⟩ := mem_drop_take_iff.1 hmem
    exact hfirst index exit' hgt hbelow hevent
  have hcurrent : (new.run (events.take last)).1.trackedRun? = some ticket.run ↔
      ∀ index event, first < index → index < last → events[index]? = some event →
        event.supersedes = false := by
    rw [run_take_eq hlt, trackedRun?_run (invariant_take hcount _) (fits_of_le hcount hlt)
      (List.getElem?_eq_some_iff.1 hpending.1).1 hbetween]
    constructor
    · rintro ⟨-, hquiet⟩ index event hgt hbelow hevent
      exact hquiet event (mem_drop_take_iff.2 ⟨index, hgt, hbelow, hevent⟩)
    · intro hquiet
      refine ⟨htracked, fun event hmem => ?_⟩
      obtain ⟨index, hgt, hbelow, hevent⟩ := mem_drop_take_iff.1 hmem
      exact hquiet index event hgt hbelow hevent
  rw [Session.delivers_iff hcount, ← hcurrent]
  constructor
  · rintro ⟨-, checker, hchecker, hcurrent, rfl⟩
    obtain rfl := Option.some.inj (hlater.symm.trans hchecker.1)
    exact ⟨hcurrent, by rw [hfollows.generation_eq, hfollows.buffer_eq]⟩
  · rintro ⟨hcurrent, rfl⟩
    exact ⟨hend, later, hpending', hcurrent, by rw [hfollows.generation_eq, hfollows.buffer_eq]⟩

theorem Starts.index_le {first second : Nat} {ticket ticket' : Ticket} {buffer buffer' : Text}
    (hfirst : Starts events first ticket buffer) (hsecond : Starts events second ticket' buffer')
    (hrun : ticket.run = ticket'.run) : second ≤ first := by
  refine Nat.le_of_not_lt fun hlt => ?_
  obtain ⟨-, hpending, -⟩ := hfirst.pending
  obtain ⟨later, hlater, -⟩ := runs_take_follows hcount hlt hpending.1
  have hlength := (List.getElem?_eq_some_iff.1 hlater).1
  have hlast := hsecond.pending.1
  omega

theorem Delivers.index_le {first second run : Nat} {exit exit' : CheckerExit}
    {report report' : Report} (hfirst : Delivers events first run exit report)
    (hsecond : Delivers events second run exit' report') : second ≤ first := by
  refine Nat.le_of_not_lt fun hlt => ?_
  obtain ⟨checker, hchecker, hfinished⟩ := hfirst.finished hcount
  obtain ⟨later, hlater, hfollows, -⟩ := runs_take_follows hcount hlt hchecker
  obtain ⟨-, ending, hpending, -⟩ := (Session.delivers_iff hcount).1 hsecond
  obtain rfl := Option.some.inj (hlater.symm.trans hpending.1)
  have hunfinished := hpending.2.2
  rw [hfollows.finished_of_finished hfinished] at hunfinished
  exact absurd hunfinished nofun

end History

/-- **Only the current run reports.** Whatever the order of starts, failed starts, cancels, drops
and ends, the first end of a started run hands over a report exactly if no event superseded the run
since its start. The report is about that run alone: its generation, its exit code, and what its
output followed by its error output tells about its buffer. No run reports twice, and only started
runs report. -/
theorem delivers_iff_not_superseded (events : List Event)
    (hcount : events.countP Event.asks < UInt64.size) :
    (∀ first last ticket buffer exit, Starts events first ticket buffer → first < last →
        events[last]? = some (.complete ticket.run exit) →
        (∀ index exit', first < index → index < last →
          events[index]? ≠ some (.complete ticket.run exit')) →
        ∀ report, Delivers events last ticket.run exit report ↔
          (∀ index event, first < index → index < last → events[index]? = some event →
              event.supersedes = false) ∧
            report = ⟨ticket.generation, exit.code, Diagnostic.ofOutput
              (Text.decodeLossy exit.stdout ++ Text.decodeLossy exit.stderr) buffer⟩) ∧
      (∀ first second run exit exit' report report', Delivers events first run exit report →
        Delivers events second run exit' report' → first = second) ∧
      (∀ last run exit report, Delivers events last run exit report →
        ∃ first < last, ∃ ticket buffer, Starts events first ticket buffer ∧ ticket.run = run) ∧
      ∀ first second ticket ticket' buffer buffer', Starts events first ticket buffer →
        Starts events second ticket' buffer' → ticket.run = ticket'.run → first = second := by
  refine ⟨?_, ?_, ?_, ?_⟩
  · intro first last ticket buffer exit hstarts hlt hend hfirst report
    exact hstarts.delivers_iff hcount hlt hend hfirst report
  · intro first second run exit exit' report report' hfirst hsecond
    exact Nat.le_antisymm (hsecond.index_le hcount hfirst) (hfirst.index_le hcount hsecond)
  · intro last run exit report hdelivers
    obtain ⟨-, checker, hpending, -⟩ := (Session.delivers_iff hcount).1 hdelivers
    obtain ⟨first, hlt, ticket, hstarts, hrun, -⟩ :=
      exists_starts hcount hpending.1 hpending.2.1
    exact ⟨first, hlt, ticket, checker.buffer, hstarts, hrun⟩
  · intro first second ticket ticket' buffer buffer' hfirst hsecond hrun
    exact Nat.le_antisymm (hsecond.index_le hcount hfirst hrun.symm)
      (hfirst.index_le hcount hsecond hrun)

def overtaken (first second : CheckerExit) : List Event :=
  [ .start (.ok ⟨"/bin/sh".toList, []⟩) .piped "a = 1".toList,
    .start (.ok ⟨"/bin/sh".toList, []⟩) .piped "b =\nc =".toList,
    .complete 0 first,
    .complete 1 second ]

/-- A checker with a warning in its output and an error in its error output. -/
def complaining : CheckerExit :=
  ⟨Text.encode "Warning: Old syntax\n\n  on <stdin> line 1:\n".toList,
    Text.encode "Error: Invalid expression\n\n  on <stdin> line 2:\n".toList, some 1⟩

/-- The first check is overtaken and ends without a report; the second one is reported with the
problems of both streams. -/
theorem delivers_overtaken :
    (overtaken complaining complaining).countP Event.asks < UInt64.size ∧
      Starts (overtaken complaining complaining) 0 ⟨1, 0⟩ "a = 1".toList ∧
      Starts (overtaken complaining complaining) 1 ⟨2, 1⟩ "b =\nc =".toList ∧
      (∀ report, ¬ Delivers (overtaken complaining complaining) 2 0 complaining report) ∧
      Delivers (overtaken complaining complaining) 3 1 complaining
        ⟨2, some 1,
          [⟨1, ⟨0, 3⟩, .warning, "Old syntax".toList, "Old syntax".toList⟩,
            ⟨2, ⟨4, 7⟩, .error, "Invalid expression".toList, "Invalid expression".toList⟩]⟩ := by
  have hcount : (overtaken complaining complaining).countP Event.asks < UInt64.size := by
    rw [show (overtaken complaining complaining).countP Event.asks = 2 from rfl]
    decide
  have hfirst : Starts (overtaken complaining complaining) 0 ⟨1, 0⟩ "a = 1".toList :=
    ⟨⟨_, _, rfl⟩, rfl⟩
  have hsecond : Starts (overtaken complaining complaining) 1 ⟨2, 1⟩ "b =\nc =".toList :=
    ⟨⟨_, _, rfl⟩, rfl⟩
  have hdiagnostics : Diagnostic.ofOutput
      (Text.decodeLossy complaining.stdout ++ Text.decodeLossy complaining.stderr)
        "b =\nc =".toList =
      [⟨1, ⟨0, 3⟩, .warning, "Old syntax".toList, "Old syntax".toList⟩,
        ⟨2, ⟨4, 7⟩, .error, "Invalid expression".toList, "Invalid expression".toList⟩] := by
    decide +kernel
  have hreports := (delivers_iff_not_superseded (overtaken complaining complaining) hcount).1
  refine ⟨hcount, hfirst, hsecond, ?_, ?_⟩
  · intro report hdelivers
    have hquiet := (hreports 0 2 ⟨1, 0⟩ _ complaining hfirst (by decide) rfl
      (fun index exit' hgt hlt => by
        obtain rfl : index = 1 := by omega
        exact nofun) report).1 hdelivers
    exact absurd (hquiet.1 1 _ (by decide) (by decide) rfl) (by decide)
  · refine (hreports 1 3 ⟨2, 1⟩ _ complaining hsecond (by decide) rfl
      (fun index exit' hgt hlt => by
        obtain rfl : index = 2 := by omega
        exact nofun) _).2 ⟨?_, by rw [hdiagnostics]; rfl⟩
    intro index event hgt hlt hevent
    obtain rfl : index = 2 := by omega
    obtain rfl := Option.some.inj hevent
    rfl

end Session

end HclEdit
