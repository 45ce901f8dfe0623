import HclEdit.Json.Basic

/-!
Reading the members of an object as the fields of a record. A field may be given once at most;
members that name no field are passed over.
-/

namespace HclEdit.Json

/-- The value of a field, if it is given; fails when it is given more than once. -/
def field? (key : String) (members : List (String × Json)) : Option (Option Json) :=
  match valuesOf key members with
  | [] => some none
  | [value] => some (some value)
  | _ => none

/-- Reads a field, with a default for one that is not given. -/
def decodeField? {α : Type} (decode : Json → Option α) (fallback : α) : Option Json → Option α
  | none => some fallback
  | some value => decode value

/-- Reads a field where it is met among the members; it may be met once. -/
def meetField? {α : Type} (decode : Json → Option α) (met : Option α) (value : Json) :
    Option (Option α) :=
  match met with
  | some _ => none
  | none => (decode value).map some

/-- Reads the next item of an array as a field, with a default when none is left. -/
def nextField? {α : Type} (decode : Json → Option α) (fallback : α) :
    List Json → Option (α × List Json)
  | [] => some (fallback, [])
  | item :: rest => (decode item).map fun value => (value, rest)

/-- The name of a constructor without arguments: a string, or an object with a null under it. -/
def constructor? : Json → Option String
  | .string name => some name
  | .object [(name, .null)] => some name
  | _ => none

end HclEdit.Json
