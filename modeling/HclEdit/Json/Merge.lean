import HclEdit.Json.Basic

/-!
Laying one JSON value over another. Objects are merged member by member; any other value takes the
place of what is below it.
-/

namespace HclEdit.Json

def setMember (key : String) (value : Json) : List (String × Json) → List (String × Json)
  | [] => [(key, value)]
  | member :: rest =>
      if member.1 == key then (key, value) :: rest else member :: setMember key value rest

mutual

def overlay (below : Json) : Json → Json
  | .object members =>
      match below with
      | .object members' => .object (overlayMembers members' members)
      | _ => .object members
  | value => value

def overlayMembers (below : List (String × Json)) : List (String × Json) → List (String × Json)
  | [] => below
  | (key, value) :: rest =>
      match below.lookup key with
      | none => overlayMembers (setMember key value below) rest
      | some under => overlayMembers (setMember key (overlay under value) below) rest

end

end HclEdit.Json
