import HclEdit.Proofs.Session.Reporting

/-!
# Starts that fail

A start whose program is not found leaves no trace: the events after it are answered as if it had
not been there. A start that gets as far as a launch and fails then has stopped whatever ran before.
From there on the session cannot be told from a new one that is idle with the same generation: no
run that it has seen reports any more, and later runs are answered alike, up to their numbers.
-/

namespace HclEdit

/-- If the launcher has an error, it is the one for a program that could not be started. -/
def Launch.IsDocumented (launch : Launch) : Prop :=
  ∀ error, launch = .refused error →
    ∀ command, ∃ path reason, error command = .launchFailed path reason

/-- A state in which the runs are numbered from a first number on. -/
def SessionState.renumbered (first : Nat) : SessionState → SessionState
  | idle => idle
  | running generation run => running generation (first + run)

namespace Session

/-! ### Programs that are not found -/

section NotFound

variable {session : Session} {resolution : Except StartError Executable} {launch : Launch}
  (hlaunch : launch.IsDocumented) {buffer program : Text}

include hlaunch in
theorem start_of_programNotFound
    (hfails : (session.start resolution launch buffer).2 = .error (.programNotFound program)) :
    session.start resolution launch buffer = (session, .error (.programNotFound program)) := by
  cases resolution with
  | error error =>
      obtain rfl := Except.error.inj hfails
      rfl
  | ok command =>
      rw [start_ok] at hfails
      cases launch with
      | refused error =>
          obtain ⟨path, reason, herror⟩ := hlaunch error rfl command
          cases herror.symm.trans (Except.error.inj hfails)
      | withoutPipes => exact absurd hfails nofun
      | piped => exact absurd hfails nofun

theorem length_responses (session : Session) (events : List Event) :
    (session.run events).2.length = events.length := by
  induction events generalizing session with
  | nil => rfl
  | cons event rest ih => simp [run_cons, ih]

theorem insertIdx_length_add {α : Type} (front back : List α) (index : Nat) (a : α) :
    (front ++ back).insertIdx (front.length + index) a = front ++ back.insertIdx index a := by
  induction front with
  | nil => simp
  | cons first others ih => simp [ih, Nat.add_right_comm]

theorem insertIdx_append_length {α : Type} (front back : List α) (a : α) :
    (front ++ back).insertIdx front.length a = front ++ a :: back :=
  insertIdx_length_add front back 0 a

include hlaunch in
/-- A start whose program is not found can be put anywhere between other events. -/
theorem run_insert_programNotFound {front : List Event} (back : List Event)
    (hfails : ((session.run front).1.start resolution launch buffer).2 =
      .error (.programNotFound program)) :
    session.run (front ++ .start resolution launch buffer :: back) =
      ((session.run (front ++ back)).1,
        (session.run (front ++ back)).2.insertIdx front.length
          (.started (.error (.programNotFound program)))) := by
  have hstep : (session.run front).1.step (.start resolution launch buffer) =
      ((session.run front).1, .started (.error (.programNotFound program))) := by
    rw [step, start_of_programNotFound hlaunch hfails]
  rw [run_append, run_append, run_cons, hstep, ← length_responses session front,
    insertIdx_append_length]

end NotFound

/-! ### Sessions that resemble a new one -/

/-- An idle session that has not seen any run. -/
def idleAt (generation : UInt64) : Session :=
  ⟨generation, .idle, [], []⟩

/-- An event as it concerns the runs from a first number on; the ends of earlier runs do not. -/
def Event.since? (first : Nat) : Event → Option Event
  | .complete run exit => if run < first then none else some (.complete (run - first) exit)
  | event => some event

def laterEvents (first : Nat) (events : List Event) : List Event :=
  events.filterMap (Event.since? first)

/-- A response in which the runs are numbered from a first number on. -/
def Response.renumbered (first : Nat) : Response → Response
  | .started (.ok ticket) => .started (.ok ⟨ticket.generation, first + ticket.run⟩)
  | response => response

/-- The first session is in the state of the second, but for runs that the second does not have. -/
structure Resembles (first : Nat) (session other : Session) : Prop where
  generation_eq : session.generation = other.generation
  state_eq : session.state = other.state.renumbered first
  first_le : first ≤ session.runs.length
  runs_eq : session.runs.drop first = other.runs

section Resembles

variable {first : Nat} {session other : Session} (hresembles : Resembles first session other)
include hresembles

theorem Resembles.length_runs : session.runs.length = first + other.runs.length := by
  have hlength := congrArg List.length hresembles.runs_eq
  have hle := hresembles.first_le
  rw [List.length_drop] at hlength
  omega

theorem Resembles.getElem?_runs (run : Nat) : session.runs[first + run]? = other.runs[run]? := by
  rw [← hresembles.runs_eq, List.getElem?_drop]

theorem Resembles.trackedRun?_eq :
    session.trackedRun? = other.trackedRun?.map (first + ·) := by
  unfold trackedRun?
  rw [hresembles.state_eq]
  cases other.state <;> rfl

theorem Resembles.tracks_eq (generation : UInt64) :
    session.tracks generation = other.tracks generation := by
  unfold tracks
  rw [hresembles.state_eq]
  cases other.state <;> rfl

theorem Resembles.isRunning_eq : session.isRunning = other.isRunning := by
  unfold isRunning
  rw [hresembles.state_eq]
  cases other.state <;> rfl

theorem Resembles.cancel : Resembles first session.cancel other.cancel where
  generation_eq := by simpa using hresembles.generation_eq
  state_eq := by simp [SessionState.renumbered]
  first_le := by simpa [length_runs_cancel] using hresembles.first_le
  runs_eq := by
    refine List.ext_getElem? fun run => ?_
    rw [List.getElem?_drop, runs_cancel, runs_cancel, hresembles.getElem?_runs,
      hresembles.trackedRun?_eq]
    cases other.trackedRun? <;> simp

theorem Resembles.asking (command : Executable) :
    Resembles first (session.asking command) (other.asking command) where
  generation_eq := congrArg (· + 1) hresembles.generation_eq
  state_eq := hresembles.cancel.state_eq
  first_le := hresembles.cancel.first_le
  runs_eq := hresembles.cancel.runs_eq

theorem Resembles.adding (checker : CheckerRun) :
    Resembles first (session.adding checker) (other.adding checker) where
  generation_eq := hresembles.generation_eq
  state_eq := hresembles.state_eq
  first_le := by
    rw [Session.adding, List.length_append]
    exact Nat.le_add_right_of_le hresembles.first_le
  runs_eq := by
    rw [Session.adding, List.drop_append_of_le_length hresembles.first_le, hresembles.runs_eq]
    rfl

theorem Resembles.tracking (generation : UInt64) (buffer : Text) :
    Resembles first (session.tracking generation buffer) (other.tracking generation buffer) where
  generation_eq := hresembles.generation_eq
  state_eq := congrArg (SessionState.running generation) hresembles.length_runs
  first_le := (hresembles.adding _).first_le
  runs_eq := (hresembles.adding _).runs_eq

theorem Resembles.start (resolution : Except StartError Executable) (launch : Launch)
    (buffer : Text) :
    (session.step (.start resolution launch buffer)).2 =
        (other.step (.start resolution launch buffer)).2.renumbered first ∧
      Resembles first (session.step (.start resolution launch buffer)).1
        (other.step (.start resolution launch buffer)).1 := by
  cases resolution with
  | error error => exact ⟨rfl, hresembles⟩
  | ok command =>
      have hasking := hresembles.asking command
      simp only [step, start_ok, hresembles.generation_eq]
      cases launch with
      | refused error => exact ⟨rfl, hasking⟩
      | withoutPipes => exact ⟨rfl, hasking.adding _⟩
      | piped =>
          refine ⟨?_, hasking.tracking _ _⟩
          rw [hresembles.length_runs]
          rfl

theorem Resembles.finishing (run : Nat) :
    Resembles first (session.finishing (first + run)) (other.finishing run) where
  generation_eq := hresembles.generation_eq
  state_eq := hresembles.state_eq
  first_le := by
    rw [Session.finishing, List.length_modify]
    exact hresembles.first_le
  runs_eq := by
    rw [Session.finishing, List.drop_modify_of_ge _ _ _ _ (Nat.le_add_right first run),
      hresembles.runs_eq, Nat.add_sub_cancel_left]
    rfl

theorem Resembles.finishing_of_lt {run : Nat} (hrun : run < first) :
    Resembles first (session.finishing run) other where
  generation_eq := hresembles.generation_eq
  state_eq := hresembles.state_eq
  first_le := by
    rw [Session.finishing, List.length_modify]
    exact hresembles.first_le
  runs_eq := by
    rw [Session.finishing, List.drop_modify_of_lt _ _ _ _ hrun, hresembles.runs_eq]

theorem Resembles.complete (run : Nat) (exit : CheckerExit) :
    (session.complete (first + run) exit).2 = (other.complete run exit).2 ∧
      Resembles first (session.complete (first + run) exit).1 (other.complete run exit).1 := by
  have hfinishing := hresembles.finishing run
  unfold Session.complete
  rw [hresembles.getElem?_runs]
  cases other.runs[run]? with
  | none => exact ⟨rfl, hresembles⟩
  | some checker =>
      dsimp only
      rw [hresembles.tracks_eq]
      split
      · exact ⟨rfl, hresembles⟩
      · split
        · exact ⟨rfl, hfinishing.generation_eq, rfl, hfinishing.first_le, hfinishing.runs_eq⟩
        · exact ⟨rfl, hfinishing⟩

variable (hinv : session.Invariant)
include hinv

/-- A run that the other session does not have is not tracked, so its end is not reported. -/
theorem Resembles.complete_of_lt {run : Nat} (hrun : run < first) (exit : CheckerExit) :
    (session.complete run exit).2 = none ∧
      Resembles first (session.complete run exit).1 other := by
  by_cases hpending : ∃ checker, session.IsPending run checker
  · obtain ⟨checker, hpending⟩ := hpending
    have huntracked : session.trackedRun? ≠ some run := by
      rw [hresembles.trackedRun?_eq]
      intro htracked
      obtain ⟨later, -, rfl⟩ := Option.map_eq_some_iff.1 htracked
      exact absurd hrun (Nat.not_lt.2 (Nat.le_add_right first later))
    rw [hinv.complete_of_pending hpending, if_neg huntracked]
    exact ⟨rfl, hresembles.finishing_of_lt hrun⟩
  · rw [complete_of_not_pending (not_exists.1 hpending)]
    exact ⟨rfl, hresembles⟩

/-- **One step.** An event is answered alike, or it is the end of an earlier run. -/
theorem Resembles.step (event : Event) :
    (session.step event).2 =
        ((event.since? first).elim (.completed none) fun later =>
          (other.step later).2.renumbered first) ∧
      Resembles first (session.step event).1
        ((event.since? first).elim other fun later => (other.step later).1) := by
  cases event with
  | start resolution launch buffer => exact hresembles.start resolution launch buffer
  | cancel => exact ⟨rfl, hresembles.cancel⟩
  | close => exact ⟨rfl, hresembles.cancel⟩
  | complete run exit =>
      by_cases hrun : run < first
      · obtain ⟨hreport, hlater⟩ := hresembles.complete_of_lt hinv hrun exit
        simp only [Event.since?, if_pos hrun]
        exact ⟨congrArg Response.completed hreport, hlater⟩
      · obtain ⟨later, rfl⟩ := Nat.exists_eq_add_of_le (Nat.not_lt.1 hrun)
        obtain ⟨hreport, hlater⟩ := hresembles.complete later exit
        simp only [Event.since?, if_neg hrun, Nat.add_sub_cancel_left]
        exact ⟨congrArg Response.completed hreport, hlater⟩

omit hresembles hinv in
/-- What resembles another session goes on to do so, whatever happens. -/
theorem Resembles.run {first : Nat} {session other : Session}
    (hresembles : Resembles first session other) (hinv : session.Invariant) {events : List Event}
    (hfit : session.launches + events.countP Event.asks < UInt64.size) :
    Resembles first (session.run events).1
      (other.run (laterEvents first events)).1 := by
  induction events generalizing session other with
  | nil => exact hresembles
  | cons event rest ih =>
      have hstep := (hresembles.step hinv event).2
      have hlater := ih hstep (hinv.step_of_run hfit) (launches_step_add hfit)
      rw [run_cons]
      cases hsince : event.since? first with
      | none =>
          rw [hsince] at hlater
          rw [laterEvents, List.filterMap_cons_none hsince]
          exact hlater
      | some later =>
          rw [hsince] at hlater
          rw [laterEvents, List.filterMap_cons_some hsince, run_cons]
          exact hlater

end Resembles

theorem resembles_idleAt {session : Session} (hidle : session.state = .idle) :
    Resembles session.runs.length session (idleAt session.generation) where
  generation_eq := rfl
  state_eq := hidle
  first_le := Nat.le_refl _
  runs_eq := List.drop_length

/-! ### Launches that fail -/

section LaunchFailed

variable {session : Session} {find : Text → Option Text} {command : CommandLine} {launch : Launch}
  {buffer path reason : Text}

theorem exists_locate_of_launchFailed
    (hfails : (session.start (command.locate find) launch buffer).2 =
      .error (.launchFailed path reason)) :
    ∃ executable, command.locate find = .ok executable := by
  unfold CommandLine.locate at hfails ⊢
  split at hfails
  · exact ⟨_, rfl⟩
  · exact absurd hfails nofun

theorem start_of_launchFailed {executable : Executable}
    (hfails : (session.start (.ok executable) launch buffer).2 =
      .error (.launchFailed path reason)) :
    (session.start (.ok executable) launch buffer).1.state = .idle ∧
      (session.start (.ok executable) launch buffer).1.generation = session.generation + 1 ∧
      session.runs.length ≤ (session.start (.ok executable) launch buffer).1.runs.length := by
  have hidle : (session.asking executable).state = .idle := state_asking
  rw [start_ok] at hfails ⊢
  cases launch with
  | refused error => exact ⟨hidle, rfl, by simp [runs_asking, length_runs_cancel]⟩
  | withoutPipes => exact ⟨hidle, rfl, by simp [adding, runs_asking, length_runs_cancel]⟩
  | piped => cases hfails

end LaunchFailed

/-- **Starts that fail.** However programs are found: if the program is not found, the start changes
nothing, and all other events are answered as without it, as long as the launcher's errors are those
it documents. If the launch fails, the session is idle and has the next generation. Whatever happens
then, no run that there has been reports any more, neither the one that was running nor one brought
up without pipes, and every event is answered as by an idle session with that generation which has
not seen those runs. -/
theorem failed_start_leaves_idle (events : List Event) (find : Text → Option Text)
    (command : CommandLine) (launch : Launch) (buffer : Text) :
    (launch.IsDocumented → ∀ failed program,
      (new.run events).1.start (command.locate find) launch buffer =
          (failed, .error (.programNotFound program)) →
        failed = (new.run events).1 ∧
        ∀ rest, new.run (events ++ .start (command.locate find) launch buffer :: rest) =
          ((new.run (events ++ rest)).1,
            (new.run (events ++ rest)).2.insertIdx events.length
              (.started (.error (.programNotFound program))))) ∧
    ∀ failed path reason,
      (new.run events).1.start (command.locate find) launch buffer =
          (failed, .error (.launchFailed path reason)) →
        failed.state = .idle ∧ failed.generation = (new.run events).1.generation + 1 ∧
        (new.run events).1.runs.length ≤ failed.runs.length ∧
        ∀ rest,
          (events ++ .start (command.locate find) launch buffer :: rest).countP
              Event.asks < UInt64.size →
          ∀ idle, ((idleAt failed.generation).run (laterEvents failed.runs.length rest)).1 = idle →
            (failed.run rest).1.generation = idle.generation ∧
            (failed.run rest).1.isRunning = idle.isRunning ∧
            (∀ run < failed.runs.length, ∀ exit,
              ((failed.run rest).1.complete run exit).2 = none) ∧
            ∀ event, ((failed.run rest).1.step event).2 =
              (event.since? failed.runs.length).elim (.completed none) fun later =>
                (idle.step later).2.renumbered failed.runs.length := by
  constructor
  · intro hlaunch failed program hstart
    have hfails := congrArg Prod.snd hstart
    refine ⟨?_, fun rest => run_insert_programNotFound hlaunch rest hfails⟩
    rw [start_of_programNotFound hlaunch hfails] at hstart
    exact (congrArg Prod.fst hstart).symm
  · intro failed path reason hstart
    have hfails := congrArg Prod.snd hstart
    obtain ⟨executable, hlocate⟩ := exists_locate_of_launchFailed hfails
    rw [hlocate] at hstart hfails ⊢
    obtain ⟨hidle, hgeneration, hlength⟩ := start_of_launchFailed hfails
    rw [hstart] at hidle hgeneration hlength
    refine ⟨hidle, hgeneration, hlength, ?_⟩
    rintro rest hcount idle rfl
    rw [List.append_cons, List.countP_append] at hcount
    have hfailed :
        (new.run (events ++ [.start (.ok executable) launch buffer])).1 = failed := by
      rw [run_append]
      exact congrArg Prod.fst hstart
    have hlaunches := launches_run new (events ++ [.start (.ok executable) launch buffer])
    rw [show new.launches = 0 from rfl, Nat.zero_add, hfailed] at hlaunches
    rw [← hlaunches] at hcount
    have hinv : failed.Invariant := by
      rw [← hfailed]
      apply invariant_new.run
      rw [show new.launches = 0 from rfl, Nat.zero_add, ← hlaunches]
      exact Nat.lt_of_le_of_lt (Nat.le_add_right _ _) hcount
    have hresembles := (resembles_idleAt hidle).run hinv hcount
    have hinv' := hinv.run hcount
    exact ⟨hresembles.generation_eq, hresembles.isRunning_eq,
      fun run hrun exit => (hresembles.complete_of_lt hinv' hrun exit).1,
      fun event => (hresembles.step hinv' event).1⟩

def shell : CommandLine :=
  ⟨"/bin/sh".toList, []⟩

/-- Nothing but the shell is found. -/
def findShell (program : Text) : Option Text :=
  if program = shell.program then some program else none

/-- A check of a buffer that has not come to its end. -/
def inFlight : List Event :=
  [.start (.ok ⟨"/bin/sh".toList, []⟩) .piped "a = 1".toList]

/-- The check in flight is still reported after a start without the shell. A start without pipes
ends it, and only the next check is reported. -/
theorem failed_start_inFlight :
    new.run (inFlight ++ .start (shell.locate fun _ => none) .piped "b".toList ::
        [.complete 0 ⟨[], [], some 0⟩]) =
      ((new.run (inFlight ++ [.complete 0 ⟨[], [], some 0⟩])).1,
        [.started (.ok ⟨1, 0⟩), .started (.error (.programNotFound "/bin/sh".toList)),
          .completed (some ⟨1, some 0, []⟩)]) ∧
      ∃ failed, (new.run inFlight).1.start (shell.locate findShell) .withoutPipes "b".toList =
          (failed, .error (.launchFailed "/bin/sh".toList pipeFailure)) ∧
        failed.state = .idle ∧ failed.generation = 2 ∧
        ((failed.run inFlight).1.complete 0 ⟨[], [], some 0⟩).2 = none ∧
        ((failed.run inFlight).1.step (.complete 2 ⟨[], [], some 0⟩)).2 =
          .completed (some ⟨3, some 0, []⟩) := by
  constructor
  · exact ((failed_start_leaves_idle inFlight (fun _ => none) shell .piped "b".toList).1 nofun _ _
      rfl).2 [.complete 0 ⟨[], [], some 0⟩]
  · refine ⟨_, rfl, ?_⟩
    obtain ⟨hidle, hgeneration, -, hlater⟩ :=
      (failed_start_leaves_idle inFlight findShell shell .withoutPipes "b".toList).2 _ _ _ rfl
    obtain ⟨-, -, hsilent, hanswer⟩ := hlater inFlight (by decide +kernel) _ rfl
    refine ⟨hidle, hgeneration, hsilent 0 (by decide) _, ?_⟩
    exact hanswer (.complete 2 ⟨[], [], some 0⟩)

end Session

end HclEdit
