import Arborist.Config.Basic
import Arborist.Rule.Basic
import Arborist.Rules.CallText
import Arborist.Rules.Surroundings

/-!
# `Arborist.Rules.UnwrapExpect`: no `.unwrap()` and `.expect()` in production code

The rule looks at method calls by their name alone. Code for tests is let through unless the
settings say otherwise, and so is code under an attribute that allows the corresponding lints. The
fix puts a question mark in place of `.unwrap()`; as that changes what the function returns, it is a
risky one.
-/

set_option autoImplicit false

namespace Arborist.Rules

/-- What can be set for the rule. -/
structure UnwrapExpect where
  allowInTests : Bool := true
  /-- Only `.unwrap()` is forbidden. -/
  allowExpect : Bool := false
  deriving DecidableEq, Repr

namespace UnwrapExpect

def descriptor : Descriptor where
  code := "TL001"
  name := "no-unwrap-expect"
  description := "Forbids .unwrap() and .expect() in production code"
  message := "`.\x7bmethod\x7d()` is forbidden in production code"
  severity := .error
  impact := .high
  applicability := .except [.test, .bench, .exampleProgram]

/-- The settings with those of the rule's table on top. -/
def configure (r : UnwrapExpect) (config : Config) : UnwrapExpect :=
  match config.ruleConfig? descriptor with
  | some table => {
      allowInTests := table.flag "allow_in_tests" r.allowInTests
      allowExpect := table.flag "allow_expect" r.allowExpect }
  | none => r

/-- The method of a call that the rule forbids. -/
def forbidden? (r : UnwrapExpect) (node : SyntaxNode) : Option String :=
  node.name.filter fun name => name = "unwrap" || (name = "expect" && !r.allowExpect)

/-- The receiver of the call is a call of `partial_cmp`. -/
def followsPartialCmp (tree : SyntaxTree) (node : SyntaxNode) : Except Failure Bool := do
  match ← tree.takeOperands 1 node.children with
  | receiver :: _ => return receiver.kind = .methodCall && receiver.name = some "partial_cmp"
  | [] => return false

/-- The message and the correction for a call. -/
def findingFor (tree : SyntaxTree) (node : SyntaxNode) (method : String) :
    Except Failure Finding := do
  let message := descriptor.message.fill [("method", method)]
  if method = "unwrap" then
    if ← followsPartialCmp tree node then return {
      range := node.range
      message := message ++ " (NaN comparison danger with partial_cmp)"
      correction := some
        "Use `total_cmp`, or handle the `None` that `partial_cmp` returns for NaN" }
    else return {
      range := node.range
      message
      correction := some "Use `?` operator, `.ok_or(Error)?`, or pattern matching" }
  else return {
    range := node.range
    message
    correction := some "Use `?` operator with `.context()` or custom error" }

/-- The call stands in code that may panic. -/
def permits (r : UnwrapExpect) (tree : SyntaxTree) (node : SyntaxNode) : Except Failure Bool := do
  let inTests ← if r.allowInTests then inTestCode tree node else pure false
  if inTests then return true
  else allowedByAttribute tree node ["clippy::unwrap_used", "clippy::expect_used"]

def onMethodCall (r : UnwrapExpect) (scene : Scene) : Reaction :=
  match r.forbidden? scene.node with
  | none => .pass
  | some method => .ofExcept do
    if ← r.permits scene.tree scene.node then return .pass
    else return .reportOne (← findingFor scene.tree scene.node method)

/-- Replaces `.unwrap()` by a question mark. -/
def propose (file : SourceFile) (tree : SyntaxTree) (d : Diagnostic) : List Proposal :=
  match tree.nodeAt? d.range .methodCall with
  | some (_, node) =>
    if node.name = some "unwrap" then
      match receiverLength? (file.text node.range) "unwrap" with
      | some length => [{
          edits := [⟨⟨node.range.start + length, node.range.stop⟩, "?"⟩]
          label := "replace `.unwrap()` with `?`"
          safety := .risky }]
      | none => []
    else []
  | none => []

def rule (r : UnwrapExpect) : Rule where
  descriptor := descriptor
  subscriptions := Subscription.onEach [.methodCall] r.onMethodCall
  propose file tree d := some (propose file tree d)

end UnwrapExpect

end Arborist.Rules
