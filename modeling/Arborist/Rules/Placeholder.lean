import Arborist.Rule.Basic
import Arborist.Rules.CallText
import Arborist.Rules.Surroundings

/-!
# `Arborist.Rules.Placeholder`: no placeholder macros

A function whose whole body is a placeholder is reported once, as a stub, and nothing in it is
reported again.
-/

set_option autoImplicit false

namespace Arborist.Rules.Placeholder

def descriptor : Descriptor where
  code := "TL005"
  name := "no-todo-macro"
  description := "Forbids todo!() and unimplemented!() placeholders"
  message := "`\x7bmacro\x7d!` placeholder left in code"

/-- The macros to report. -/
def macros : List String := ["todo", "unimplemented"]

/-- The placeholder macro that a node invokes. -/
def placeholder? (node : SyntaxNode) : Option String :=
  if node.kind = .macroCall || node.kind = .macroStatement then
    (node.name.map macroBase).filter macros.contains
  else none

/-- The placeholder macro that is the whole body of a function. -/
def stub (tree : SyntaxTree) (node : SyntaxNode) : Except Failure (Option String) := do
  match ← tree.findNode (·.kind = .block) node.children.reverse with
  | none => return none
  | some body =>
    match ← tree.takeOperands 2 body.children with
    | [only] => return placeholder? only
    | _ => return none

def onFunction (scene : Scene) : Reaction :=
  .ofExcept do
    match ← stub scene.tree scene.node with
    | none => return .pass
    | some base =>
      return .reportOne {
        range := scene.node.range
        message := "function `" ++ scene.node.name.getD "_" ++ "` is an unimplemented `" ++ base ++
          "!` stub" } .skipChildren

def onInvocation (scene : Scene) : Reaction :=
  match placeholder? scene.node with
  | none => .pass
  | some base => .reportOne {
      range := scene.node.range
      message := descriptor.message.fill [("macro", base)] }

def rule : Rule where
  descriptor := descriptor
  subscriptions := [⟨.function, "stub", onFunction⟩, ⟨.macroCall, "expression", onInvocation⟩,
    ⟨.macroStatement, "statement", onInvocation⟩]

end Arborist.Rules.Placeholder
