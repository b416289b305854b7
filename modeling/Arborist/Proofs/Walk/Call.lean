import Arborist.Walk

/-!
# `Arborist.Proofs.Walk.Call`: what one call of a callback does

A call has three effects: reports, the new state of the rule, and one more entry among the calls.
The first two have names here. `Subscriber.react` is what the callback makes of the reporter, the
report of a failure included, together with how it ends; `RuleState.after` is the state that this
end leaves the rule in. `WalkState.call_eq` says that a call is these and nothing else, so that no
later proof looks into `WalkState.call` again. `walk_invariant` is the induction over a walk: what
each call keeps holds in the end. `walkRead?` is the walk that stops at a read outside the arena,
and `walkRead?_eq` says when there is none.
-/

set_option autoImplicit false

namespace Arborist

/-- What a callback makes of the reporter at a node, and how it ends. A failure is reported at the
node. -/
def Subscriber.react (file : SourceFile) (tree : SyntaxTree) (id : NodeId) (node : SyntaxNode)
    (s : Subscriber) (r : Reporter) : Reporter × Except Failure Visit :=
  match (s.subscription.callback ⟨file, tree, id, node, s.active.severity⟩).run s.active r with
  | (reporter, .ok visit) => (reporter, .ok visit)
  | (reporter, .error failure) =>
    let d := s.active.rule.descriptor
    ((reporter.report (Diagnostic.internal d.code d.name node.range
      ("rule `" ++ d.name ++ "` failed: " ++ failure.message))).2, .error failure)

/-- The state of a rule after a call at a node that ended in this way. -/
def RuleState.after (tree : SyntaxTree) (id : NodeId) (state : RuleState) :
    Except Failure Visit → RuleState
  | .ok .proceed => state.enter id
  | .ok .skipChildren => .mutedWithin id ((tree.subtreeEnd? id).getD (id + 1))
  | .ok .stop => .stopped
  | .error _ => .failed

/-- How many failures a call adds. -/
def failureCount : Except Failure Visit → Nat
  | .ok _ => 0
  | .error _ => 1

namespace WalkState

/-- A call updates the reporter, the state of its own rule, the failures and the calls. The four
ways in which it can end differ in the outcome alone. -/
theorem call_eq (file : SourceFile) (tree : SyntaxTree) (id : NodeId) (node : SyntaxNode)
    (w : WalkState) (s : Subscriber) :
    w.call file tree id node s =
      let (reporter, outcome) := s.react file tree id node w.reporter
      { reporter
        states := w.states.set s.position ((w.stateOf s.position).after tree id outcome)
        nodes := w.nodes
        failedRules := w.failedRules + failureCount outcome
        reversedCalls := ⟨id, s.position, s.subscription.slot⟩ :: w.reversedCalls } := by
  rw [call, Subscriber.react]
  generalize (s.subscription.callback _).run s.active w.reporter = result
  obtain ⟨reporter, outcome⟩ := result
  cases outcome with
  | error failure => rfl
  | ok visit => cases visit <;> rfl

/-- A call sets the state of its own rule, to the one that follows from how the callback ended. -/
theorem stateOf_call_self {file : SourceFile} {tree : SyntaxTree} {id : NodeId}
    {node : SyntaxNode} {w : WalkState} {s : Subscriber} (h : s.position < w.states.length) :
    (w.call file tree id node s).stateOf s.position =
      (w.stateOf s.position).after tree id (s.react file tree id node w.reporter).2 := by
  rw [call_eq, stateOf]
  simp [h]

/-- A call leaves the states of the other rules alone. -/
theorem stateOf_call_ne {file : SourceFile} {tree : SyntaxTree} {id : NodeId}
    {node : SyntaxNode} {w : WalkState} {s : Subscriber} {q : Nat} (h : q ≠ s.position) :
    (w.call file tree id node s).stateOf q = w.stateOf q := by
  rw [call_eq, stateOf]
  simp only [List.getElem?_set_ne (Ne.symm h)]
  rfl

/-- After a call the reporter is what the callback made of it, with a failure reported. -/
@[simp] theorem reporter_call (file : SourceFile) (tree : SyntaxTree) (id : NodeId)
    (node : SyntaxNode) (w : WalkState) (s : Subscriber) :
    (w.call file tree id node s).reporter = (s.react file tree id node w.reporter).1 := by
  rw [call_eq]

/-- Every call is recorded, behind those before it. -/
@[simp] theorem calls_call (file : SourceFile) (tree : SyntaxTree) (id : NodeId)
    (node : SyntaxNode) (w : WalkState) (s : Subscriber) :
    (w.call file tree id node s).calls =
      w.calls ++ [⟨id, s.position, s.subscription.slot⟩] := by
  rw [call_eq]
  simp [calls]

/-- There is one state for each rule before and after a call. -/
@[simp] theorem length_states_call (file : SourceFile) (tree : SyntaxTree) (id : NodeId)
    (node : SyntaxNode) (w : WalkState) (s : Subscriber) :
    (w.call file tree id node s).states.length = w.states.length := by
  rw [call_eq]
  simp

/-- All rules are active at the start. -/
theorem stateOf_start (interest : Interest) (position : Nat) :
    stateOf { states := interest.rules.map fun _ => .active } position = .active := by
  rw [stateOf, List.getElem?_map]
  cases interest.rules[position]? <;> rfl

/-- Calls a callback at a node if its rule is to be called there. -/
def turn (file : SourceFile) (tree : SyntaxTree) (id : NodeId) (node : SyntaxNode) (w : WalkState)
    (s : Subscriber) : WalkState :=
  if (w.stateOf s.position).listens id then w.call file tree id node s else w

/-- A visit counts the node and gives each callback for its kind a turn. -/
theorem visit_eq (file : SourceFile) (tree : SyntaxTree) (interest : Interest) (w : WalkState)
    (id : NodeId) (node : SyntaxNode) :
    w.visit file tree interest (id, node) =
      (interest.subscribersOf node.kind).foldl (turn file tree id node)
        { w with nodes := w.nodes + 1 } := rfl

end WalkState

/-- What holds at the start, and is kept by counting a node and by every call, holds in the end. A
call may be assumed to be of a callback for the kind of the node whose rule listens there. -/
theorem walk_invariant {file : SourceFile} {tree : SyntaxTree} {interest : Interest}
    {P : WalkState → Prop} (hstart : P { states := interest.rules.map fun _ => .active })
    (hnode : ∀ w, P w → P { w with nodes := w.nodes + 1 })
    (hcall : ∀ (w : WalkState) (id : NodeId) (node : SyntaxNode), P w →
      ∀ s ∈ interest.subscribersOf node.kind, (w.stateOf s.position).listens id = true →
        P (w.call file tree id node s)) :
    P (walk file tree interest) := by
  unfold walk
  refine List.foldlRecOn _ _ hstart fun w hw entry _ => ?_
  obtain ⟨id, node⟩ := entry
  rw [WalkState.visit_eq]
  -- Over the callbacks for the kind of this node.
  refine List.foldlRecOn _ _ (hnode w hw) fun w hw s hs => ?_
  rw [WalkState.turn]
  split
  · rename_i hlistens
    exact hcall w id node hw s hs hlistens
  · exact hw

/-! ### Reads of the arena

A walk reads the arena for one thing besides the node it visits: the end of the subtree that a rule
skips. `WalkState.call` puts up with an arena where this fails. Here it does not. -/

/-- The state of a rule after a call; `none` is a read outside the arena. -/
def RuleState.afterRead? (tree : SyntaxTree) (id : NodeId) (state : RuleState) :
    Except Failure Visit → Option RuleState
  | .ok .skipChildren => (tree.subtreeEnd? id).map (.mutedWithin id)
  | outcome => some (state.after tree id outcome)

namespace WalkState

/-- Calls one callback at a node; `none` is a read outside the arena. -/
def callRead? (file : SourceFile) (tree : SyntaxTree) (id : NodeId) (node : SyntaxNode)
    (w : WalkState) (s : Subscriber) : Option WalkState := do
  let (reporter, outcome) := s.react file tree id node w.reporter
  let state ← (w.stateOf s.position).afterRead? tree id outcome
  return {
    reporter
    states := w.states.set s.position state
    nodes := w.nodes
    failedRules := w.failedRules + failureCount outcome
    reversedCalls := ⟨id, s.position, s.subscription.slot⟩ :: w.reversedCalls }

/-- Visits a node; `none` is a read outside the arena. -/
def visitRead? (file : SourceFile) (tree : SyntaxTree) (interest : Interest) (w : WalkState)
    (entry : NodeId × SyntaxNode) : Option WalkState :=
  (interest.subscribersOf entry.2.kind).foldlM (fun w s =>
    if (w.stateOf s.position).listens entry.1 then w.callRead? file tree entry.1 entry.2 s
    else some w) { w with nodes := w.nodes + 1 }

end WalkState

/-- Walks over a tree; `none` is a read outside the arena. -/
def walkRead? (file : SourceFile) (tree : SyntaxTree) (interest : Interest) : Option WalkState :=
  tree.enumerated.foldlM (WalkState.visitRead? file tree interest)
    { states := interest.rules.map fun _ => .active }

/-- Steps that all succeed can be taken without looking. -/
theorem foldlM_eq_some {α β : Type} {f : β → α → Option β} {g : β → α → β} {l : List α}
    (h : ∀ a ∈ l, ∀ b, f b a = some (g b a)) (b : β) : l.foldlM f b = some (l.foldl g b) := by
  induction l generalizing b with
  | nil => rfl
  | cons a l ih =>
      rw [List.foldlM_cons, h a (by simp) b]
      exact ih (fun a' ha' => h a' (by simp [ha'])) (g b a)

/-- At a node whose subtree has an end, a call reads nothing outside the arena. The end is read only
if the callback asks to skip the children. -/
theorem WalkState.callRead?_eq {file : SourceFile} {tree : SyntaxTree} {id : NodeId}
    {node : SyntaxNode} {stop : Nat} (h : tree.subtreeEnd? id = some stop) (w : WalkState)
    (s : Subscriber) : w.callRead? file tree id node s = some (w.call file tree id node s) := by
  have hafter : ∀ (state : RuleState) (outcome : Except Failure Visit),
      state.afterRead? tree id outcome = some (state.after tree id outcome) := by
    intro state outcome
    unfold RuleState.afterRead?
    split
    · simp [RuleState.after, h]
    · rfl
  rw [callRead?, call_eq]
  simp only [hafter]
  rfl

/-- If every subtree has an end in the arena, the walk never reads outside it, and comes to the same
end as the walk that does not look. -/
theorem walkRead?_eq {file : SourceFile} {tree : SyntaxTree} {interest : Interest}
    (h : ∀ entry ∈ tree.enumerated, ∃ stop, tree.subtreeEnd? entry.1 = some stop) :
    walkRead? file tree interest = some (walk file tree interest) := by
  refine foldlM_eq_some (fun entry hentry w => ?_) _
  obtain ⟨stop, hstop⟩ := h entry hentry
  refine foldlM_eq_some (fun s _ w => ?_) _
  split
  · exact WalkState.callRead?_eq hstop w s
  · rfl

end Arborist
