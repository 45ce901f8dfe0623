import HclEdit.Toml.Quoted
import HclEdit.Toml.Scalar
import HclEdit.Toml.Table

/-!
Reading TOML. The settings it holds come out as the members of an object.
-/

namespace HclEdit.Toml

mutual

/-- Reads a value whose arrays and tables nest to less than `depth`. -/
def readValue? : Nat → Nat → Text → Option (Json × Text)
  | 0, _, _ => none
  | fuel + 1, depth, text =>
      match text with
      | '"' :: _ | '\'' :: _ => (readString? text).map fun (value, left) => (Json.text value, left)
      | '[' :: rest =>
          if depth ≤ 1 then none
          else (readItems? fuel (depth - 1) rest).map fun (items, left) => (.array items, left)
      | '\x7b' :: rest =>
          if depth ≤ 1 then none
          else
            match skipSpace rest with
            | '\x7d' :: left => some (.object [], left)
            | inside =>
                (readFields? fuel (depth - 1) [] inside).map fun (members, left) =>
                  (.object members.toJson, left)
      | _ =>
          let (scalar, left) := takeScalar text
          (scalarValue? scalar).map (·, left)

def readItems? : Nat → Nat → Text → Option (List Json × Text)
  | 0, _, _ => none
  | fuel + 1, depth, text => do
      match ← skipLines? text.length text with
      | ']' :: left => some ([], left)
      | inside =>
          let (item, after) ← readValue? fuel depth inside
          match ← skipLines? after.length after with
          | ',' :: rest =>
              let (items, left) ← readItems? fuel depth rest
              some (item :: items, left)
          | ']' :: left => some ([item], left)
          | _ => none

/-- Reads the fields of a table that is written on one line. -/
def readFields? : Nat → Nat → Members → Text → Option (Members × Text)
  | 0, _, _, _ => none
  | fuel + 1, depth, members, text => do
      let (keys, afterKey) ← readKey? text
      match afterKey with
      | '=' :: rest =>
          let (value, after) ← readValue? fuel depth (skipSpace rest)
          let members ← members.assign? value true keys
          match skipSpace after with
          | ',' :: rest => readFields? fuel depth members (skipSpace rest)
          | '\x7d' :: left => some (members, left)
          | _ => none
      | _ => none

end

/-- The tables read so far, and the heading that keys stand under. -/
structure Reading where
  members : Members
  heading : List String

namespace Reading

def openWith? (reading : Reading) (change : String → Members → Option Members)
    (keys : List String) : Option Reading := do
  let key ← keys.getLast?
  some ⟨← reading.members.within? (change key) keys.dropLast, keys⟩

def assign? (reading : Reading) (keys : List String) (value : Json) : Option Reading := do
  some { reading with
    members := ← reading.members.within? (Members.assign? value true keys) reading.heading }

end Reading

/-- Reads the line at the front of a text. -/
def readLine? (reading : Reading) (text : Text) : Option (Reading × Text) :=
  match text with
  | '[' :: '[' :: rest => do
      let (keys, after) ← readKey? rest
      match after with
      | ']' :: ']' :: left => some (← reading.openWith? Members.openElement? keys, left)
      | _ => none
  | '[' :: rest => do
      let (keys, after) ← readKey? rest
      match after with
      | ']' :: left => some (← reading.openWith? Members.openTable? keys, left)
      | _ => none
  | _ => do
      let (keys, after) ← readKey? text
      match after with
      | '=' :: rest =>
          let (value, left) ← readValue? (rest.length + 1) maxDepth (skipSpace rest)
          some (← reading.assign? keys value, left)
      | _ => none

def readLines? : Nat → Reading → Text → Option Reading
  | 0, _, _ => none
  | fuel + 1, reading, text => do
      match ← skipLines? text.length text with
      | [] => some reading
      | line =>
          let (next, left) ← readLine? reading line
          readLines? fuel next (← endLine? left)

/-- The members of the table that a whole text stands for; a byte order mark in front is passed
over. -/
def read? (text : Text) : Option (List (String × Json)) :=
  let body := if text.head? = some '\uFEFF' then text.drop 1 else text
  (readLines? (body.length + 1) ⟨[], []⟩ body).map (·.members.toJson)

end HclEdit.Toml
