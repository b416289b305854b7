import Arborist.Interest
import Arborist.Report
import Arborist.Reporter

/-!
# `Arborist.Walk`: one pass over a tree

The walk goes through the arena once, which on a valid tree is pre-order, and calls for each node
the callbacks subscribed to its kind. A rule can mute itself below a node or for the rest of the
file. A rule that fails is muted for the rest of the file, and the failure is reported at the node.
-/

set_option autoImplicit false

namespace Arborist

/-- Whether a rule is to be called. -/
inductive RuleState where
  | active
  /-- Not called for the nodes behind `root` and before `stop`. -/
  | mutedWithin (root stop : NodeId)
  | stopped
  | failed
  deriving DecidableEq, Repr

namespace RuleState

/-- A rule in this state is called at a node. -/
def listens : RuleState → NodeId → Bool
  | .active, _ => true
  | .mutedWithin root stop, id => !(root < id && id < stop)
  | .stopped, _ => false
  | .failed, _ => false

/-- The state when a call at a node begins: a subtree that was left does not matter any more. -/
def enter : RuleState → NodeId → RuleState
  | .mutedWithin root stop, id => if root = id then .mutedWithin root stop else .active
  | state, _ => state

end RuleState

/-- A call of a callback. -/
structure Call where
  node : NodeId
  /-- Position of the rule among the rules in use. -/
  position : Nat
  slot : String
  deriving DecidableEq, Repr

/-- A walk under way. -/
structure WalkState where
  reporter : Reporter := {}
  /-- The states of the rules in use, by position. -/
  states : List RuleState
  nodes : Nat := 0
  failedRules : Nat := 0
  /-- The calls so far, last one first. -/
  reversedCalls : List Call := []

namespace WalkState

/-- The state of the rule at a position. -/
def stateOf (w : WalkState) (position : Nat) : RuleState := w.states[position]?.getD .active

def withState (w : WalkState) (position : Nat) (state : RuleState) : WalkState :=
  { w with states := w.states.set position state }

/-- The calls so far. -/
def calls (w : WalkState) : List Call := w.reversedCalls.reverse

def stats (w : WalkState) : WalkStats := ⟨w.nodes, w.calls.length, w.failedRules⟩

end WalkState

/-- Carries out the reports of a reaction; the result is how it ends. -/
def Reaction.run (active : ActiveRule) : Reaction → Reporter → Reporter × Except Failure Visit
  | .finish visit, reporter => (reporter, .ok visit)
  | .fail failure, reporter => (reporter, .error failure)
  | .report finding next, reporter =>
    let d := active.rule.descriptor
    let (isNew, reporter) := reporter.report {
      code := d.code, rule := d.name, severity := active.severity, range := finding.range
      message := finding.message, correction := finding.correction }
    (next isNew).run active reporter

namespace WalkState

/-- Calls one callback at a node. -/
def call (file : SourceFile) (tree : SyntaxTree) (id : NodeId) (node : SyntaxNode)
    (w : WalkState) (s : Subscriber) : WalkState :=
  let scene : Scene := ⟨file, tree, id, node, s.active.severity⟩
  let (reporter, outcome) := (s.subscription.callback scene).run s.active w.reporter
  let w := { w with
    reporter
    reversedCalls := ⟨id, s.position, s.subscription.slot⟩ :: w.reversedCalls }
  match outcome with
  | .ok .proceed => w.withState s.position ((w.stateOf s.position).enter id)
  | .ok .skipChildren =>
    w.withState s.position (.mutedWithin id ((tree.subtreeEnd? id).getD (id + 1)))
  | .ok .stop => w.withState s.position .stopped
  | .error failure =>
    let d := s.active.rule.descriptor
    let message := "rule `" ++ d.name ++ "` failed: " ++ failure.message
    let (_, reporter) := w.reporter.report (Diagnostic.internal d.code d.name node.range message)
    { w.withState s.position .failed with reporter, failedRules := w.failedRules + 1 }

/-- Visits a node: calls the callbacks for its kind whose rules are not muted there. -/
def visit (file : SourceFile) (tree : SyntaxTree) (interest : Interest) (w : WalkState)
    (entry : NodeId × SyntaxNode) : WalkState :=
  let (id, node) := entry
  (interest.subscribersOf node.kind).foldl (fun w s =>
    if (w.stateOf s.position).listens id then w.call file tree id node s else w)
    { w with nodes := w.nodes + 1 }

end WalkState

/-- Walks over a tree. -/
def walk (file : SourceFile) (tree : SyntaxTree) (interest : Interest) : WalkState :=
  tree.enumerated.foldl (WalkState.visit file tree interest)
    { states := interest.rules.map fun _ => .active }

end Arborist
