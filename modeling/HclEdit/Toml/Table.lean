import HclEdit.Json.Basic

/-!
The tables of a TOML text while it is read. A table may be opened by a heading of its own, by a
longer heading, or by a key with dots in it, and this decides what may still be added to it: a
heading opens a table once, and what has been opened by a heading is closed to keys with dots.
-/

namespace HclEdit.Toml

/-- A table is implicit if no heading is its own, and dotted if a key has opened it. -/
inductive Item where
  | value (value : Json)
  | table ( implicit dotted : Bool) (members : List (String × Item))
  | tables (elements : List (List (String × Item)))

abbrev Members := List (String × Item)

namespace Members

def add (key : String) (item : Item) (members : Members) : Members :=
  members ++ [(key, item)]

def replace (key : String) (item : Item) (members : Members) : Members :=
  members.map fun member => if member.1 == key then (key, item) else member

/-- Gives a key its value. A key with dots leads through implicit tables, and the last of them must
have been opened by such a key; `accepts` tells whether this one takes values. -/
def assign? (value : Json) (accepts : Bool) : List String → Members → Option Members
  | [], _ => none
  | [key], members =>
      if accepts && (members.lookup key).isNone then some (members.add key (.value value)) else none
  | key :: keys, members =>
      match members.lookup key with
      | none => do
          let inner ← assign? value true keys []
          some (members.add key (.table true true inner))
      | some (.table true dotted inner) => do
          let inner ← assign? value dotted keys inner
          some (members.replace key (.table true dotted inner))
      | some (.tables elements) => do
          let last ← assign? value false keys (← elements.getLast?)
          some (members.replace key (.tables (elements.dropLast ++ [last])))
      | _ => none

/-- Changes the table that a heading leads to. Tables on the way that are missing are made, and of
an array of tables the last one counts. -/
def within? (change : Members → Option Members) : List String → Members → Option Members
  | [], members => change members
  | key :: keys, members =>
      match members.lookup key with
      | none => do
          let inner ← within? change keys []
          some (members.add key (.table true false inner))
      | some (.table implicit dotted inner) => do
          let inner ← within? change keys inner
          some (members.replace key (.table implicit dotted inner))
      | some (.tables elements) => do
          let last ← within? change keys (← elements.getLast?)
          some (members.replace key (.tables (elements.dropLast ++ [last])))
      | some (.value _) => none

/-- Opens a table, which may have been opened by longer headings alone. -/
def openTable? (key : String) (members : Members) : Option Members :=
  match members.lookup key with
  | none => some (members.add key (.table false false []))
  | some (.table true false inner) => some (members.replace key (.table false false inner))
  | _ => none

/-- Opens one more table of an array. -/
def openElement? (key : String) (members : Members) : Option Members :=
  match members.lookup key with
  | none => some (members.add key (.tables [[]]))
  | some (.tables elements) => some (members.replace key (.tables (elements ++ [[]])))
  | _ => none

mutual

def toJson : Members → List (String × Json)
  | [] => []
  | (key, item) :: rest => (key, itemToJson item) :: toJson rest

def itemToJson : Item → Json
  | .value value => value
  | .table _ _ members => .object (toJson members)
  | .tables elements => .array (elementsToJson elements)

def elementsToJson : List Members → List Json
  | [] => []
  | element :: rest => .object (toJson element) :: elementsToJson rest

end

end Members

end HclEdit.Toml
