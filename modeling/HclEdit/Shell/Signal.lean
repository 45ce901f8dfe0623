import HclEdit.Shell.Command

/-!
Signals: their names and numbers, and what they do to a process that has not said anything else.
-/

namespace HclEdit.Shell

/-- What a signal does on its own, with what is said about a process that it has ended. -/
inductive SignalEffect where
  | none
  | silent
  | ends (notice : String)
deriving DecidableEq

structure Signal where
  number : Nat
  name : String
  effect : SignalEffect

namespace Signal

def standard : List Signal :=
  [⟨1, "HUP", .ends "Hangup"⟩, ⟨2, "INT", .silent⟩, ⟨3, "QUIT", .ends "Quit"⟩,
   ⟨4, "ILL", .ends "Illegal instruction"⟩, ⟨5, "TRAP", .ends "Trace/breakpoint trap"⟩,
   ⟨6, "ABRT", .ends "Aborted"⟩, ⟨7, "BUS", .ends "Bus error"⟩,
   ⟨8, "FPE", .ends "Floating point exception"⟩, ⟨9, "KILL", .ends "Killed"⟩,
   ⟨10, "USR1", .ends "User defined signal 1"⟩, ⟨11, "SEGV", .ends "Segmentation fault"⟩,
   ⟨12, "USR2", .ends "User defined signal 2"⟩, ⟨13, "PIPE", .silent⟩,
   ⟨14, "ALRM", .ends "Alarm clock"⟩, ⟨15, "TERM", .ends "Terminated"⟩,
   ⟨16, "16", .ends "Stack fault"⟩, ⟨17, "CHLD", .none⟩, ⟨18, "CONT", .none⟩,
   ⟨19, "STOP", .none⟩, ⟨20, "TSTP", .none⟩, ⟨21, "TTIN", .none⟩, ⟨22, "TTOU", .none⟩,
   ⟨23, "URG", .none⟩, ⟨24, "XCPU", .ends "CPU time limit exceeded"⟩,
   ⟨25, "XFSZ", .ends "File size limit exceeded"⟩, ⟨26, "VTALRM", .ends "Virtual timer expired"⟩,
   ⟨27, "PROF", .ends "Profiling timer expired"⟩, ⟨28, "WINCH", .none⟩,
   ⟨29, "IO", .ends "I/O possible"⟩, ⟨30, "PWR", .ends "Power failure"⟩,
   ⟨31, "SYS", .ends "Bad system call"⟩]

def first : Nat := 34

def last : Nat := 64

/-- The name of a signal for real time, counted from whichever end is nearer. -/
def realTimeName (number : Nat) : Octets :=
  let counted (name : String) (sign : Char) (distance : Nat) : Octets :=
    name.toList ++ if distance = 0 then [] else sign :: Text.decimal distance
  if number < 50 then counted "RTMIN" '+' (number - first) else counted "RTMAX" '-' (last - number)

/-- The name of the number of a signal; zero stands for the end of a shell. -/
def nameOf (number : Nat) : Octets :=
  match standard.find? (·.number = number) with
  | some signal => signal.name.toList
  | none =>
      if number = 0 then "EXIT".toList
      else if number < first then Text.decimal number
      else realTimeName number

def effectOf (number : Nat) : SignalEffect :=
  match standard.find? (·.number = number) with
  | some signal => signal.effect
  | none =>
      if first ≤ number then
        .ends ("Real-time signal " ++ String.ofList (Text.decimal (number - first)))
      else .none

/-- The number that a number or a name in letters of either case stands for. -/
def ofText? (text : Octets) : Option Nat :=
  let numbers := List.range (last + 1)
  match Text.natural? text with
  | some number => if number ≤ last then some number else none
  | none => numbers.find? fun number => nameOf number = text.map Char.toUpper

end Signal

end HclEdit.Shell
