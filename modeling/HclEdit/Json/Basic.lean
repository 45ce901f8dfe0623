import HclEdit.Text.Basic

/-!
JSON values. Members keep the order and the repetitions of the text they were read from. A number
is an integer when it is written as one and fits in 64 bits; any other number is kept as written.
Escapes can spell half of a surrogate pair; what is written with such an escape has the form of a
string, or of an object if it is in a key, but no value.
-/

namespace HclEdit

inductive Json where
  | null
  | bool (value : Bool)
  | integer (value : Int)
  | real (literal : Text)
  | string (value : String)
  | undecodable
  | array (items : List Json)
  | object (members : List (String × Json))

namespace Json

def natural (n : Nat) : Json :=
  .integer n

def text (t : Text) : Json :=
  .string (String.ofList t)

def optional {α : Type} (encode : α → Json) : Option α → Json
  | none => .null
  | some value => encode value

def list {α : Type} (encode : α → Json) (values : List α) : Json :=
  .array (values.map encode)

def valuesOf (key : String) (members : List (String × Json)) : List Json :=
  (members.filter (·.1 == key)).map (·.2)

/-- The value of the first member with a key; nothing for a value that is not an object. -/
def get? (json : Json) (key : String) : Option Json :=
  match json with
  | .object members => (valuesOf key members).head?
  | _ => none

def string? : Json → Option String
  | .string value => some value
  | _ => none

def natural? : Json → Option Nat
  | .integer (.ofNat n) => some n
  | _ => none

def bool? : Json → Option Bool
  | .bool value => some value
  | _ => none

def array? : Json → Option (List Json)
  | .array items => some items
  | _ => none

def object? : Json → Option (List (String × Json))
  | .object members => some members
  | _ => none

end Json

end HclEdit
