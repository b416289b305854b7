import Arborist.Rule.Basic
import Arborist.Rules.CallText
import Arborist.Rules.Surroundings

/-!
# `Arborist.Rules.LengthComparison`: `.is_empty()` rather than a length of zero

The rule looks at comparisons, and at calls of `.len()` for the comparison around them. Both report
the comparison.
-/

set_option autoImplicit false

namespace Arborist.Rules.LengthComparison

def descriptor : Descriptor where
  code := "TL003"
  name := "prefer-is-empty"
  description := "Prefers .is_empty() over comparing .len() with zero"
  message := "comparison of `.len()` with zero"
  severity := .info

/-- A call of `.len()` without arguments. -/
def asksLength (tree : SyntaxTree) (node : SyntaxNode) : Except Failure Bool := do
  if node.kind = .methodCall && node.name = some "len" then
    return (← tree.takeOperands node.children.length node.children).length = 1
  else return false

/-- The literal zero, with or without its type. -/
def isZero (node : SyntaxNode) : Bool :=
  node.kind = .numberLiteral && node.name.any fun literal =>
    Text.dropEndAll ['_'] (Text.dropEndAll "usize".toList literal.toList) = ['0']

/-- The one operand asks for a length and the other is zero. -/
def isLengthAndZero (tree : SyntaxTree) (call zero : SyntaxNode) : Except Failure Bool := do
  if ← asksLength tree call then return isZero zero else return false

/-- Whether an operator that compares for equality asks its operands to differ. -/
def negation? : Option String → Option Bool
  | some "==" => some false
  | some "!=" => some true
  | _ => none

/-- The operand that asks for a length, if the other one is zero. -/
def lengthOperand (tree : SyntaxTree) : List SyntaxNode → Except Failure (Option SyntaxNode)
  | left :: right :: _ => do
    if ← isLengthAndZero tree left right then return some left
    else if ← isLengthAndZero tree right left then return some right
    else return none
  | _ => return none

/-- A comparison of a length with zero: the call of `.len()`, and whether they are to differ. -/
def comparison (tree : SyntaxTree) (node : SyntaxNode) :
    Except Failure (Option (SyntaxNode × Bool)) := do
  if node.kind = .binary then
    match negation? node.name with
    | none => return none
    | some negated =>
      let call? ← lengthOperand tree (← tree.takeOperands 2 node.children)
      return call?.map fun call => (call, negated)
  else return none

/-- Reports a comparison of a length with zero. -/
def report (tree : SyntaxTree) (node : SyntaxNode) : Except Failure Reaction := do
  match ← comparison tree node with
  | none => return .pass
  | some (_, negated) => return .reportOne {
      range := node.range
      message := descriptor.message.fill []
      correction := some (if negated then "Use `!x.is_empty()`" else "Use `x.is_empty()`") }

def onBinary (scene : Scene) : Reaction := .ofExcept (report scene.tree scene.node)

def onMethodCall (scene : Scene) : Reaction :=
  if scene.node.name = some "len" then
    match scene.node.parent with
    | some id => .ofExcept do report scene.tree (← scene.tree.read id)
    | none => .pass
  else .pass

/-- The first `length` bytes of a text. -/
def front (text : String) (length : Nat) : Except Failure String :=
  match Text.slice? text 0 length with
  | some front => .ok front
  | none => .error (.breakdown none)

/-- Replaces the comparison by a call of `.is_empty()` on the same receiver. -/
def propose (file : SourceFile) (tree : SyntaxTree) (d : Diagnostic) :
    Except Failure (List Proposal) := do
  match tree.nodeAt? d.range .binary with
  | none => return []
  | some (_, node) =>
    match ← comparison tree node with
    | none => return []
    | some (call, negated) =>
      let text := file.text call.range
      match receiverLength? text "len" with
      | none => return []
      | some length =>
        let receiver ← front text length
        return [{
          priority := 1
          edits := [⟨d.range, (if negated then "!" else "") ++ receiver ++ ".is_empty()"⟩]
          label := "use `.is_empty()`" }]

def rule : Rule where
  descriptor := descriptor
  subscriptions := [⟨.binary, "binary", onBinary⟩, ⟨.methodCall, "len-call", onMethodCall⟩]
  propose file tree d := (propose file tree d).toOption

end Arborist.Rules.LengthComparison
