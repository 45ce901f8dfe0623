import HclEdit.Shell.Command

/-!
Patterns for texts and file names. A star stands for any characters, a question mark for one, and
brackets for one of those listed; a quoted character stands for itself.
-/

namespace HclEdit.Shell

/-- A character with the mark whether it is quoted. -/
abbrev Marked := Char × Bool

inductive Member where
  | range (low high : Char)
  | named (name : Octets)

inductive Glob where
  | any
  | one
  | literal (c : Char)
  | oneOf (negated : Bool) (members : List Member)

namespace Member

/-- The classes of ASCII characters that have a name. -/
def isInClass (name : Octets) (c : Char) : Bool :=
  let isPrinted := ' ' ≤ c && c ≤ '~'
  match String.ofList name with
  | "alpha" => c.isAlpha
  | "digit" => c.isDigit
  | "alnum" => c.isAlphanum
  | "upper" => c.isUpper
  | "lower" => c.isLower
  | "space" => c == ' ' || ('\t' ≤ c && c ≤ '\r')
  | "blank" => c == ' ' || c == '\t'
  | "punct" => isPrinted && c != ' ' && ! c.isAlphanum
  | "print" => isPrinted
  | "graph" => isPrinted && c != ' '
  | "cntrl" => c.toNat < 0x20 || c.toNat == 0x7F
  | "xdigit" => c.isDigit || ('a' ≤ c && c ≤ 'f') || ('A' ≤ c && c ≤ 'F')
  | _ => false

def holds (c : Char) : Member → Bool
  | range low high => low ≤ c && c ≤ high
  | named name => isInClass name c

end Member

namespace Glob

/-- Takes a character at the front of a pattern; a backslash quotes the next one. -/
def takeMember : List Marked → Option (Char × List Marked)
  | ('\\', false) :: (c, _) :: rest => some (c, rest)
  | (c, _) :: rest => some (c, rest)
  | [] => none

/-- The name of a class between colons, and what follows it. -/
def takeClass? : List Marked → Option (Octets × List Marked)
  | (':', false) :: rest =>
      let name := rest.takeWhile fun (c, quoted) => c.isAlpha && ! quoted
      match rest.drop name.length with
      | (':', false) :: (']', false) :: left => some (name.map (·.1), left)
      | _ => none
  | _ => none

/-- Reads the members of a bracket; the first of them may be a closing bracket. -/
def readMembers : Nat → Bool → List Marked → Option (List Member × List Marked)
  | 0, _, _ => none
  | _, _, [] => none
  | fuel + 1, first, pattern =>
      match pattern with
      | (']', false) :: rest =>
          if ! first then some ([], rest) else readRange fuel pattern
      | ('[', false) :: rest =>
          match takeClass? rest with
          | some (name, left) =>
              (readMembers fuel false left).map fun (members, left) =>
                (.named name :: members, left)
          | none => readRange fuel pattern
      | _ => readRange fuel pattern
where
  readRange (fuel : Nat) (pattern : List Marked) : Option (List Member × List Marked) := do
    let (low, rest) ← takeMember pattern
    match rest with
    | ('-', false) :: after =>
        if after.head? = some (']', false) then
          more fuel low low rest
        else
          let (high, left) ← takeMember after
          more fuel low high left
    | _ => more fuel low low rest
  more (fuel : Nat) (low high : Char) (rest : List Marked) : Option (List Member × List Marked) :=
    (readMembers fuel false rest).map fun (members, left) => (.range low high :: members, left)

/-- Reads a bracket after its opening mark; nothing if it is not closed. -/
def readBracket? (pattern : List Marked) : Option (Glob × List Marked) :=
  let (negated, inside) :=
    match pattern with
    | ('!', false) :: rest | ('^', false) :: rest => (true, rest)
    | _ => (false, pattern)
  (readMembers (inside.length + 1) true inside).map fun (members, left) =>
    (.oneOf negated members, left)

def read : Nat → List Marked → List Glob
  | 0, _ => []
  | _, [] => []
  | fuel + 1, (c, quoted) :: rest =>
      if quoted then .literal c :: read fuel rest
      else if c = '*' then .any :: read fuel rest
      else if c = '?' then .one :: read fuel rest
      else if c = '\\' then
        match rest with
        | (c, _) :: rest => .literal c :: read fuel rest
        | [] => [.literal c]
      else if c = '[' then
        match readBracket? rest with
        | some (glob, left) => glob :: read fuel left
        | none => .literal c :: read fuel rest
      else .literal c :: read fuel rest

def ofMarked (pattern : List Marked) : List Glob :=
  read (pattern.length + 1) pattern

/-- Whether a pattern fits all of a text. -/
def fits : List Glob → Octets → Bool
  | [], text => text.isEmpty
  | .any :: rest, text => fitsSome rest text
  | .one :: rest, _ :: text => fits rest text
  | .literal c :: rest, d :: text => c == d && fits rest text
  | .oneOf negated members :: rest, c :: text =>
      (members.any (·.holds c)) != negated && fits rest text
  | _, [] => false
where
  /-- Whether a pattern fits some end of a text. -/
  fitsSome (rest : List Glob) : Octets → Bool
    | [] => fits rest []
    | c :: text => fits rest (c :: text) || fitsSome rest text

/-- Whether a text has marks of a pattern that are not quoted. -/
def isPattern (marked : List Marked) : Bool :=
  marked.any fun (c, quoted) => ! quoted && ['*', '?', '['].contains c

end Glob

/-- What is left of a text when the shortest or the longest start that a pattern fits is cut off. -/
def trimStart (pattern : List Glob) (longest : Bool) (text : Octets) : Octets :=
  let cuts := (List.range (text.length + 1)).filter fun n => Glob.fits pattern (text.take n)
  text.drop ((if longest then cuts.getLast? else cuts.head?).getD 0)

/-- What is left of a text when the shortest or the longest end that a pattern fits is cut off. -/
def trimEnd (pattern : List Glob) (longest : Bool) (text : Octets) : Octets :=
  let cuts := (List.range (text.length + 1)).filter fun n => Glob.fits pattern (text.drop n)
  text.take ((if longest then cuts.head? else cuts.getLast?).getD text.length)

end HclEdit.Shell
