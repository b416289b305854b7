import Arborist.Fix.Proposal
import Arborist.Diagnostic
import Arborist.Rule.Descriptor
import Arborist.Tree.Basic

/-!
# `Arborist.Rule.Basic`: rules as reactions to nodes

A rule subscribes callbacks to kinds of nodes. A callback looks at a node and reacts: it reports
findings, learning each time whether the report was new, and then lets the walk go on or fails. What
it reports carries the code, the name and the severity of its rule, which the callback cannot
choose.
-/

set_option autoImplicit false

namespace Arborist

/-- How the walk goes on for the rule whose callback was called. -/
inductive Visit where
  | proceed
  /-- The rule is not called for the nodes below this one. -/
  | skipChildren
  /-- The rule is not called again. -/
  | stop
  deriving DecidableEq, Repr

/-- How a callback fails. -/
inductive Failure where
  /-- It gave up. -/
  | error (message : String)
  /-- It broke down, with or without a message. -/
  | breakdown (message : Option String)
  deriving DecidableEq, Repr

namespace Failure

def message : Failure → String
  | .error message => message
  | .breakdown (some message) => s!"panicked: {message}"
  | .breakdown none => "panicked"

end Failure

/-- What a callback reports. -/
structure Finding where
  range : TextRange
  message : String
  correction : Option String := none
  deriving DecidableEq, Repr

/-- What a callback does. -/
inductive Reaction where
  /-- Reports a finding and goes on, knowing whether the report was new. -/
  | report (finding : Finding) (next : Bool → Reaction)
  | finish (visit : Visit)
  | fail (failure : Failure)

namespace Reaction

/-- Nothing to report. -/
def pass : Reaction := .finish .proceed

/-- Reports one finding and lets the walk go on. -/
def reportOne (finding : Finding) (visit : Visit := .proceed) : Reaction :=
  .report finding fun _ => .finish visit

/-- The reaction that was worked out, or a failure if working it out failed. -/
def ofExcept : Except Failure Reaction → Reaction
  | .ok reaction => reaction
  | .error failure => .fail failure

end Reaction

/-- What a callback can see: a node in its tree and file, and the severity of its own rule. -/
structure Scene where
  file : SourceFile
  tree : SyntaxTree
  id : NodeId
  node : SyntaxNode
  severity : Severity

namespace Scene

/-- The source text of the node; empty if its range does not fit. -/
def text (scene : Scene) : String := scene.file.text scene.node.range

/-- The node that lists this one as a child. -/
def parent? (scene : Scene) : Option (NodeId × SyntaxNode) := do
  let id ← scene.node.parent
  return (id, ← scene.tree.node? id)

end Scene

/-- A callback for nodes of one kind. -/
structure Subscription where
  kind : NodeKind
  /-- Tells apart the callbacks of one rule for one kind. -/
  slot : String
  callback : Scene → Reaction

namespace Subscription

/-- The slot of a callback that is not given one. -/
def defaultSlot : String := "default"

/-- One callback for several kinds. -/
def onEach (kinds : List NodeKind) (callback : Scene → Reaction) : List Subscription :=
  kinds.map fun kind => ⟨kind, defaultSlot, callback⟩

end Subscription

/-- A rule. -/
structure Rule where
  descriptor : Descriptor
  /-- The callbacks in the order of their registration. -/
  subscriptions : List Subscription
  /-- Proposes fixes for a finding of this rule; none if the generator breaks down. -/
  propose : SourceFile → SyntaxTree → Diagnostic → Option (List Proposal) := fun _ _ _ => some []

end Arborist
