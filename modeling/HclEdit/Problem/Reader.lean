import HclEdit.Lines
import HclEdit.Problem.Basic
import HclEdit.Problem.Location

/-!
Reading problems from the output of a checker. A problem starts with a header line; its location,
indented context and message follow. Box drawing around it is taken off first.
-/

namespace HclEdit

/-- A line without the box drawn around it: rules become empty, and a left border is cut off. -/
def Text.unframed : Text → Text
  | '╷' :: _ | '╵' :: _ => []
  | '│' :: ' ' :: rest | '│' :: rest => rest
  | line => line

namespace ProblemReader

structure Header where
  severity : Severity
  summary : Text
deriving DecidableEq

def header? (line : Text) : Option Header :=
  [Severity.error, Severity.warning].findSome? fun severity =>
    if severity.label.isPrefixOf line then
      some ⟨severity, Text.trim (line.drop severity.label.length)⟩
    else
      none

def isHeader (line : Text) : Bool :=
  (header? line).isSome

def takeHeader? : List Text → Option (Header × List Text)
  | [] => none
  | line :: rest =>
      match header? line with
      | some header => some (header, rest)
      | none => takeHeader? rest

/-- Reads up to the first location line and gives its number, or up to the next header. -/
def seekLocation : List Text → Option Nat × List Text
  | [] => (none, [])
  | line :: rest =>
      if isHeader line then
        (none, line :: rest)
      else
        match Location.digits? line with
        | some digits => (Location.number? digits, rest)
        | none => seekLocation rest

def isExcerpt (line : Text) : Bool :=
  (Text.isBlankText line || line.head? == some ' ' || line.head? == some '\t') && ! isHeader line

def isMessage (line : Text) : Bool :=
  ! Text.isBlankText line && ! isHeader line

def dropExcerpt (lines : List Text) : List Text :=
  lines.dropWhile isExcerpt

def takeMessage (lines : List Text) : Text × List Text :=
  (Text.join ['\n'] ((lines.takeWhile isMessage).map Text.trim), lines.dropWhile isMessage)

/-- Reads what follows a header. Without a usable location there is no problem. -/
def readBlock (header : Header) (lines : List Text) : Option Problem × List Text :=
  match seekLocation lines with
  | (none, rest) => (none, rest)
  | (some line, rest) =>
      let (message, left) := takeMessage (dropExcerpt rest)
      (some ⟨line, header.severity, header.summary,
        if message.isEmpty then header.summary else message⟩, left)

/-- The next problem and the lines after it, or no problem at the end of the lines. -/
def nextWithin : Nat → List Text → Option Problem × List Text
  | 0, lines => (none, lines)
  | steps + 1, lines =>
      match takeHeader? lines with
      | none => (none, [])
      | some (header, rest) =>
          match readBlock header rest with
          | (some problem, left) => (some problem, left)
          | (none, left) => nextWithin steps left

def next (lines : List Text) : Option Problem × List Text :=
  nextWithin (lines.length + 1) lines

def problemsWithin : Nat → List Text → List Problem × List Text
  | 0, lines => ([], lines)
  | steps + 1, lines =>
      match next lines with
      | (none, left) => ([], left)
      | (some problem, left) =>
          let (problems, rest) := problemsWithin steps left
          (problem :: problems, rest)

def lines (output : Text) : List Text :=
  output.lines.map Text.unframed

/-- All problems in some lines, and the lines left when there are no more. -/
def readAll (lines : List Text) : List Problem × List Text :=
  problemsWithin (lines.length + 1) lines

def problems (output : Text) : List Problem :=
  (readAll (lines output)).1

end ProblemReader

end HclEdit
