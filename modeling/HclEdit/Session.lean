import HclEdit.CommandLine
import HclEdit.Diagnostic.Basic
import HclEdit.Text.Utf8

/-!
Checks of a buffer that may change while they run. A session tracks one checker at most: starting
another one kills it and takes the next generation. Every started checker comes to its end at some
point, and reports only if it is the tracked one then.
-/

namespace HclEdit

/-- What a checker left behind: its output, and its exit code unless a signal ended it. -/
structure CheckerExit where
  stdout : Bytes
  stderr : Bytes
  code : Option Nat
deriving DecidableEq

def CheckerExit.output (exit : CheckerExit) : Text :=
  Text.decodeLossy exit.stdout ++ Text.decodeLossy exit.stderr

/-- What becomes of launching a command: the launcher has an error, or a checker is brought up, with
or without pipes to it. -/
inductive Launch where
  | refused (error : Executable → StartError)
  | withoutPipes
  | piped

/-- The system could not start the program. -/
def Launch.failed (reason : Text) : Launch :=
  .refused fun command => .launchFailed command.path reason

/-- A launched checker. One without pipes is killed at once and never watched. -/
structure CheckerRun where
  generation : UInt64
  buffer : Text
  watched : Bool
  killed : Bool
  finished : Bool
deriving DecidableEq

structure Report where
  generation : UInt64
  exitCode : Option Nat
  diagnostics : List Diagnostic
deriving DecidableEq

/-- The generation of a started check, and the number of its run among the launched ones. -/
structure Ticket where
  generation : UInt64
  run : Nat
deriving DecidableEq

inductive SessionState where
  | idle
  | running (generation : UInt64) (run : Nat)
deriving DecidableEq

structure Session where
  generation : UInt64
  state : SessionState
  launched : List Executable
  runs : List CheckerRun
deriving DecidableEq

namespace Session

def new : Session :=
  ⟨0, .idle, [], []⟩

def isRunning (session : Session) : Bool :=
  session.state ≠ .idle

def launches (session : Session) : Nat :=
  session.launched.length

def pipeFailure : Text :=
  "checker process was started without piped stdio".toList

/-- Stops tracking the running checker, if there is one, and kills it. -/
def cancel (session : Session) : Session :=
  match session.state with
  | .idle => session
  | .running _ run =>
      { session with
        state := .idle
        runs := session.runs.modify run fun checker => { checker with killed := true } }

/-- Ends the session, and with it the running check. -/
def close (session : Session) : Session :=
  session.cancel

/-- Starts a check of a buffer, given what became of the command and of its launch. A command that
cannot be resolved leaves the session as it is. -/
def start (session : Session) (resolution : Except StartError Executable) (launch : Launch)
    (buffer : Text) : Session × Except StartError Ticket :=
  match resolution with
  | .error error => (session, .error error)
  | .ok command =>
      let stopped := session.cancel
      let generation := session.generation + 1
      let asked :=
        { stopped with generation := generation, launched := stopped.launched ++ [command] }
      match launch with
      | .refused error => (asked, .error (error command))
      | .withoutPipes =>
          ({ asked with runs := asked.runs ++ [⟨generation, buffer, false, true, false⟩] },
            .error (.launchFailed command.path pipeFailure))
      | .piped =>
          let run := asked.runs.length
          ({ asked with
              state := .running generation run
              runs := asked.runs ++ [⟨generation, buffer, true, false, false⟩] },
            .ok ⟨generation, run⟩)

def tracks (session : Session) (generation : UInt64) : Bool :=
  match session.state with
  | .idle => false
  | .running current _ => current == generation

/-- Takes the end of a watched run, once. It reports if its generation is the one tracked. -/
def complete (session : Session) (run : Nat) (exit : CheckerExit) : Session × Option Report :=
  match session.runs[run]? with
  | none => (session, none)
  | some checker =>
      if checker.finished || ! checker.watched then
        (session, none)
      else
        let ended :=
          { session with
            runs := session.runs.modify run fun checker => { checker with finished := true } }
        if session.tracks checker.generation then
          ({ ended with state := .idle },
            some ⟨checker.generation, exit.code, Diagnostic.ofOutput exit.output checker.buffer⟩)
        else
          (ended, none)

/-- Runs a check to its end. -/
def check (session : Session) (resolution : Except StartError Executable) (launch : Launch)
    (exit : CheckerExit) (buffer : Text) : Session × Except StartError (Option Report) :=
  match session.start resolution launch buffer with
  | (started, .error error) => (started, .error error)
  | (started, .ok ticket) =>
      let (ended, report) := started.complete ticket.run exit
      (ended, .ok report)

inductive Event where
  | start (resolution : Except StartError Executable) (launch : Launch) (buffer : Text)
  | cancel
  | close
  | complete (run : Nat) (exit : CheckerExit)

inductive Response where
  | started (outcome : Except StartError Ticket)
  | cancelled
  | closed
  | completed (report : Option Report)

def step (session : Session) : Event → Session × Response
  | .start resolution launch buffer =>
      let (next, outcome) := session.start resolution launch buffer
      (next, .started outcome)
  | .cancel => (session.cancel, .cancelled)
  | .close => (session.close, .closed)
  | .complete run exit =>
      let (next, report) := session.complete run exit
      (next, .completed report)

/-- The session after some events, and the response to each of them. -/
def run (session : Session) : List Event → Session × List Response
  | [] => (session, [])
  | event :: rest =>
      let (next, response) := session.step event
      let (last, responses) := next.run rest
      (last, response :: responses)

end Session

end HclEdit
