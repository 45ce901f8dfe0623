import HclEdit.Indent.Rule
import HclEdit.Json.Fields
import HclEdit.Json.Reader

/-!
Rule tables as JSON. A rule is an object with a matcher, an anchor and an offset that may be left
out; a matcher names its kind of match under `match` and what it compares with under `kind`. A rule
and a matcher may also be written as the array of their fields.

A matcher is read in one pass. When `kind` comes before `match`, its value is set aside as a whole
until the kind of match is known, and the kinds of match within it may be written in more ways.
-/

namespace HclEdit

namespace Matcher

mutual

def toJson : Matcher → Json
  | .nodeIs kind => .object [("match", .string "node_is"), ("kind", .string kind)]
  | .parentIs kind => .object [("match", .string "parent_is"), ("kind", .string kind)]
  | .grandParentIs kind => .object [("match", .string "grand_parent_is"), ("kind", .string kind)]
  | .firstOfKind kind =>
      .object [("match", .string "first_of_kind_in_parent"), ("kind", .string kind)]
  | .noParent => .object [("match", .string "no_parent")]
  | .all inner => .object [("match", .string "all"), ("kind", .array (listToJson inner))]
  | .any inner => .object [("match", .string "any"), ("kind", .array (listToJson inner))]
  | .always => .object [("match", .string "always")]

def listToJson : List Matcher → List Json
  | [] => []
  | matcher :: rest => matcher.toJson :: listToJson rest

end

/-- What a matcher compares with, as far as it can be read without knowing the kind of match. -/
inductive Operand where
  | absent
  | null
  | kind (name : String)
  | inner (matchers : List Matcher)
  | other

def ofOperand? (tag : String) (operand : Operand) : Option Matcher :=
  match tag, operand with
  | "node_is", .kind name => some (.nodeIs name)
  | "parent_is", .kind name => some (.parentIs name)
  | "grand_parent_is", .kind name => some (.grandParentIs name)
  | "first_of_kind_in_parent", .kind name => some (.firstOfKind name)
  | "no_parent", .absent => some .noParent
  | "no_parent", .null => some .noParent
  | "always", .absent => some .always
  | "always", .null => some .always
  | "all", .inner matchers => some (.all matchers)
  | "any", .inner matchers => some (.any matchers)
  | _, _ => none

/-- The names of the kinds of match, in the order in which a number stands for one. -/
def tags : List String :=
  ["node_is", "parent_is", "grand_parent_is", "no_parent", "first_of_kind_in_parent", "all", "any",
    "always"]

/-- The kind of match as the member of an object. -/
def tagOfMember? (setAside : Bool) : Json → Option String
  | .object [(name, .object [])] => if setAside then some name else none
  | json => json.constructor?

/-- The kind of match as the first item of an array. -/
def tagOfItem? (setAside : Bool) : Json → Option String
  | .string name => some name
  | .integer (.ofNat n) => if setAside then tags[n]? else none
  | _ => none

mutual

/-- Reads a matcher; `setAside` tells whether it is part of a value that was set aside. -/
def ofJson? (setAside : Bool) : Json → Option Matcher
  | .object members => do
      let tag ← (← Json.field? "match" members).bind (tagOfMember? setAside)
      match operands setAside false members with
      | [] => ofOperand? tag .absent
      | [operand] => ofOperand? tag operand
      | _ => none
  | .array [tag, operand] => do
      ofOperand? (← tagOfItem? setAside tag) (readOperand setAside operand)
  | _ => none

def readOperand (setAside : Bool) : Json → Operand
  | .null => .null
  | .string name => .kind name
  | .array items => (listOfJson? setAside items).elim .other .inner
  | _ => .other

def listOfJson? (setAside : Bool) : List Json → Option (List Matcher)
  | [] => some []
  | item :: rest => do
      let matcher ← ofJson? setAside item
      let others ← listOfJson? setAside rest
      some (matcher :: others)

/-- The operands among the members of a matcher; a matcher has one at most. -/
def operands (setAside tagged : Bool) : List (String × Json) → List Operand
  | [] => []
  | (key, value) :: rest =>
      if key == "kind" then
        readOperand (setAside || ! tagged) value :: operands setAside tagged rest
      else
        operands setAside (tagged || key == "match") rest

end

mutual

/-- A matcher without the members that reading it passes over. -/
def relevant : Json → Json
  | .object members => .object (relevantMembers false members)
  | .array [tag, operand] => .array [tag, relevantOperand operand]
  | json => json

def relevantOperand : Json → Json
  | .array items => .array (relevantItems items)
  | json => json

def relevantItems : List Json → List Json
  | [] => []
  | item :: rest => relevant item :: relevantItems rest

/-- What is set aside is looked at as a whole. -/
def relevantMembers (tagged : Bool) : List (String × Json) → List (String × Json)
  | [] => []
  | (key, value) :: rest =>
      if key == "kind" then
        (key, if tagged then relevantOperand value else value) :: relevantMembers tagged rest
      else if key == "match" then
        (key, value) :: relevantMembers true rest
      else
        relevantMembers tagged rest

end

end Matcher

namespace Anchor

def name : Anchor → String
  | margin => "column0"
  | parentLine => "parent_bol"
  | grandParentLine => "grand_parent_bol"
  | commentAbove => "prev_adaptive_prefix"
  | current => "current"

def ofName? : String → Option Anchor
  | "column0" => some margin
  | "parent_bol" => some parentLine
  | "grand_parent_bol" => some grandParentLine
  | "prev_adaptive_prefix" => some commentAbove
  | "current" => some current
  | _ => none

def ofJson? (json : Json) : Option Anchor :=
  json.constructor?.bind ofName?

end Anchor

namespace IndentRule

def toJson (rule : IndentRule) : Json :=
  .object [("matcher", rule.matcher.toJson), ("anchor", .string rule.anchor.name),
    ("offset", .integer rule.offset.toInt)]

def offsetOfJson? : Json → Option Int32
  | .integer value =>
      if Int32.minValue.toInt ≤ value ∧ value ≤ Int32.maxValue.toInt then
        some (Int32.ofInt value)
      else
        none
  | _ => none

def ofFields? (matcher anchor : Json) (offset : Option Json) : Option IndentRule := do
  some ⟨← Matcher.ofJson? false matcher, ← Anchor.ofJson? anchor,
    ← Json.decodeField? offsetOfJson? 0 offset⟩

def ofJson? : Json → Option IndentRule
  | .object members => do
      let matcher ← Json.field? "matcher" members
      let anchor ← Json.field? "anchor" members
      let offset ← Json.field? "offset" members
      ofFields? (← matcher) (← anchor) offset
  | .array [matcher, anchor] => ofFields? matcher anchor none
  | .array [matcher, anchor, offset] => ofFields? matcher anchor (some offset)
  | _ => none

/-- A rule without the members that reading it passes over. -/
def relevant : Json → Json
  | .object members =>
      .object (members.filterMap fun (key, value) =>
        if key == "matcher" then some (key, Matcher.relevant value)
        else if key == "anchor" || key == "offset" then some (key, value)
        else none)
  | .array (matcher :: rest) => .array (Matcher.relevant matcher :: rest)
  | json => json

end IndentRule

namespace IndentRules

def toJson (rules : IndentRules) : Json :=
  .array (rules.map IndentRule.toJson)

def ofJson? : Json → Option IndentRules
  | .array items => items.mapM IndentRule.ofJson?
  | _ => none

def relevant : Json → Json
  | .array items => .array (items.map IndentRule.relevant)
  | json => json

/-- Reads a table from JSON text. Members that are passed over need the form of JSON only. -/
def read? (text : Text) : Option IndentRules := do
  let json ← Json.read? text
  if (relevant json).isSound Json.maxLevels then ofJson? json else none

end IndentRules

end HclEdit
