import HclEdit.Indent.Rule

/-!
The default indentation rules for HCL. Closing delimiters align with the line that opened them,
what is nested goes one step further in, and what stands at the top level starts its line.
-/

namespace HclEdit.IndentRules

def hcl (width : UInt16) : IndentRules :=
  let step := Int32.ofNat width.toNat
  [ ⟨.nodeIsAny ["block_end", "object_end", "tuple_end", ")", "block_start"], .parentLine, 0⟩,
    ⟨.parentIs "comment", .commentAbove, 0⟩,
    ⟨.parentIsAny ["heredoc_template", "template_literal"], .current, 0⟩,
    ⟨.noParent, .margin, 0⟩,
    ⟨.parentIs "config_file", .margin, 0⟩,
    ⟨.all [.parentIs "body", .grandParentIs "config_file"], .margin, 0⟩,
    ⟨.parentIs "body", .grandParentLine, step⟩,
    ⟨.parentIs "block", .parentLine, step⟩,
    ⟨.parentIsAny ["object", "tuple", "for_object_expr", "for_tuple_expr"], .parentLine, step⟩,
    ⟨.parentIs "function_arguments", .grandParentLine, step⟩,
    ⟨.parentIs "function_call", .parentLine, step⟩,
    ⟨.parentIs "attribute", .parentLine, step⟩,
    ⟨.parentIsAny ["binary_operation", "conditional", "expression"], .parentLine, step⟩ ]

def standard : IndentRules :=
  hcl 2

end HclEdit.IndentRules
