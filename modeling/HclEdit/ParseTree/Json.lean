import HclEdit.Json.Basic
import HclEdit.ParseTree

/-!
Parse trees as JSON: an array with one entry for each node, made of its depth, kind, start, end and
flags. The flags are letters: `n` for named, `e` for an error, `m` for missing, and `h` for damage
in the subtree.
-/

namespace HclEdit

def ParseNode.ofJson? : Json → Option ParseNode
  | .array [depth, kind, start, stop, flags] => do
      let letters ← flags.string?.map String.toList
      some
        { depth := ← depth.natural?
          kind := ← kind.string?
          span := ⟨← start.natural?, ← stop.natural?⟩
          named := letters.contains 'n'
          isError := letters.contains 'e'
          isMissing := letters.contains 'm'
          hasError := letters.contains 'h' }
  | _ => none

def ParseTree.ofJson? : Json → Option ParseTree
  | .array nodes => nodes.mapM ParseNode.ofJson?
  | _ => none

end HclEdit
