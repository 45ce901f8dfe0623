import HclEdit.Json.Basic
import HclEdit.Outline

/-!
Outlines as text with one line for each item, indented by its depth, and as JSON.
-/

namespace HclEdit.OutlineItem

/-- The line of an item, without what is below it. -/
def heading (depth : Nat) (kind : Definition) (name : Text) (line : Nat) : Text :=
  List.replicate (2 * depth) ' ' ++ kind.name.toList ++ ' ' :: name ++ " (line ".toList ++
    Text.decimal line ++ [')', '\n']

mutual

def listing (depth : Nat) : OutlineItem → Text
  | ⟨kind, name, line, _, children⟩ =>
      heading depth kind name line ++ listingOfAll (depth + 1) children

def listingOfAll (depth : Nat) : List OutlineItem → Text
  | [] => []
  | item :: rest => item.listing depth ++ listingOfAll depth rest

end

mutual

def toJson : OutlineItem → Json
  | ⟨kind, name, line, span, children⟩ =>
      .object ([("kind", .string kind.name), ("name", .text name), ("line", .natural line),
        ("byte_range", .object [("start", .natural span.start), ("end", .natural span.stop)])] ++
          (if children.isEmpty then [] else [("children", .array (listToJson children))]))

def listToJson : List OutlineItem → List Json
  | [] => []
  | item :: rest => item.toJson :: listToJson rest

end

end HclEdit.OutlineItem
