import Arborist.Proofs.Reporter.Finalize
import Arborist.Proofs.Tree.Validate
import Arborist.Proofs.Walk.Independence

/-!
# `Arborist.Proofs.Walk.CallRecord`: the record of a walk

A walk keeps its calls and its diagnostics, but not which call reported what. A `CallRecord` is a
call with everything it did: the findings that it handed to the reporter, new or not, and how it
ended. `recorded` is the walk with the records of its calls beside it, and `recorded_walk` says that
keeping them does not change the walk.

`Recording.Faithful` is what the records say about the walk. Calls, reports and the number of
failures can be read off them (`calls`, `reporter`, `failures`), and a call that failed is the last
one of its rule (`final`). The last of these rests on the state of the rule, which a failure sets
and no other rule touches (`muted`).
-/

set_option autoImplicit false

namespace Arborist

/-! ### The reports of one call -/

namespace Reaction

/-- The findings that a reaction hands to the reporter, new or not. -/
def reports (active : ActiveRule) : Reaction → Reporter → List Diagnostic
  | .finish _, _ => []
  | .fail _, _ => []
  | .report finding next, r =>
    active.diagnostic finding ::
      (next (r.report (active.diagnostic finding)).1).reports active
        (r.report (active.diagnostic finding)).2

/-- A reaction changes the reporter by its reports alone, which are made one after the other. How it
goes on after a report may depend on the answer, and `reports` follows the answers that it gets. -/
theorem run_reporter (active : ActiveRule) (reaction : Reaction) (r : Reporter) :
    (reaction.run active r).1 =
      (reaction.reports active r).foldl (fun r d => (r.report d).2) r := by
  induction reaction generalizing r with
  | finish visit => rfl
  | fail failure => rfl
  | report finding next ih =>
      rw [run_report, reports, List.foldl_cons]
      exact ih _ _

/-- A rule reports findings, under its own code and name and with the severity it is used with. -/
theorem exists_of_mem_reports {active : ActiveRule} {reaction : Reaction} {r : Reporter}
    {d : Diagnostic} (h : d ∈ reaction.reports active r) :
    ∃ finding, d = active.diagnostic finding := by
  induction reaction generalizing r with
  | finish visit => cases h
  | fail failure => cases h
  | report finding next ih =>
      rcases List.mem_cons.1 h with rfl | h
      · exact ⟨finding, rfl⟩
      · exact ih _ h

end Reaction

/-- A call of a callback and what it did. -/
structure CallRecord where
  id : NodeId
  node : SyntaxNode
  subscriber : Subscriber
  /-- The findings handed to the reporter, new or not. -/
  findings : List Diagnostic
  outcome : Except Failure Visit

namespace CallRecord

/-- The call of a callback at a node, with these diagnostics reported before. -/
def ofCall (file : SourceFile) (tree : SyntaxTree) (id : NodeId) (node : SyntaxNode)
    (s : Subscriber) (r : Reporter) : CallRecord :=
  let reaction := s.subscription.callback ⟨file, tree, id, node, s.active.severity⟩
  ⟨id, node, s, reaction.reports s.active r, (reaction.run s.active r).2⟩

/-- The call as the walk writes it down, without the subscriber itself. -/
def call (i : CallRecord) : Call := ⟨i.id, i.subscriber.position, i.subscriber.subscription.slot⟩

/-- The position of the rule among the rules in use. -/
def position (i : CallRecord) : Nat := i.subscriber.position

/-- The descriptor of the rule. -/
def descriptor (i : CallRecord) : Descriptor := i.subscriber.active.rule.descriptor

/-- The report of the failure, if the call failed. -/
def error? (i : CallRecord) : Option Diagnostic :=
  match i.outcome with
  | .ok _ => none
  | .error failure =>
    some (Diagnostic.internal i.descriptor.code i.descriptor.name i.node.range
      ("rule `" ++ i.descriptor.name ++ "` failed: " ++ failure.message))

/-- Everything that was reported in the call. -/
def reports (i : CallRecord) : List Diagnostic := i.findings ++ i.error?.toList

/-- What is recorded of a call is what the callback does: the reporter is changed by the recorded
reports, that of a failure last, and the call ends as recorded. -/
theorem react_eq (file : SourceFile) (tree : SyntaxTree) (id : NodeId) (node : SyntaxNode)
    (s : Subscriber) (r : Reporter) :
    s.react file tree id node r =
      ((ofCall file tree id node s r).reports.foldl (fun r d => (r.report d).2) r,
        (ofCall file tree id node s r).outcome) := by
  have hrun := Reaction.run_reporter s.active
    (s.subscription.callback ⟨file, tree, id, node, s.active.severity⟩) r
  unfold Subscriber.react
  rw [reports, List.foldl_append]
  simp only [ofCall, error?, descriptor] at hrun ⊢
  rw [← hrun]
  generalize (s.subscription.callback _).run s.active r = result
  obtain ⟨reporter, outcome⟩ := result
  cases outcome <;> rfl

/-- Failures are counted as they are reported: a call that fails has one report of it, any other
none. -/
theorem failureCount_outcome (i : CallRecord) :
    failureCount i.outcome = i.error?.toList.length := by
  unfold error?
  cases i.outcome <;> rfl

/-- A failure puts the rule into its last state, whatever its state was before. -/
theorem after_of_error? {i : CallRecord} (h : i.error?.isSome = true) (tree : SyntaxTree)
    (id : NodeId) (state : RuleState) : state.after tree id i.outcome = .failed := by
  unfold error? at h
  cases houtcome : i.outcome with
  | ok visit =>
      rw [houtcome] at h
      cases h
  | error failure => rfl

/-- What the report of a failure says: it is an internal error under the code of the rule, at the
range of the node. -/
theorem of_error? {i : CallRecord} {d : Diagnostic} (h : i.error? = some d) :
    d.kind = .internalError ∧ d.code = i.descriptor.code ∧ d.severity = .error ∧
      d.range = i.node.range := by
  unfold error? at h
  cases houtcome : i.outcome with
  | ok visit =>
      rw [houtcome] at h
      cases h
  | error failure =>
      rw [houtcome] at h
      obtain rfl := Option.some.inj h
      exact ⟨rfl, rfl, rfl, rfl⟩

end CallRecord

/-! ### The walk with its records -/

/-- A walk under way and the records of its calls so far. -/
structure Recording where
  walk : WalkState
  records : List CallRecord := []

namespace Recording

/-- Calls a callback at a node if its rule is to be called there. -/
def turn (file : SourceFile) (tree : SyntaxTree) (id : NodeId) (node : SyntaxNode) (k : Recording)
    (s : Subscriber) : Recording :=
  if (k.walk.stateOf s.position).listens id then
    ⟨k.walk.call file tree id node s,
      k.records ++ [.ofCall file tree id node s k.walk.reporter]⟩
  else k

/-- Visits a node. -/
def visit (file : SourceFile) (tree : SyntaxTree) (interest : Interest) (k : Recording)
    (entry : NodeId × SyntaxNode) : Recording :=
  (interest.subscribersOf entry.2.kind).foldl (turn file tree entry.1 entry.2)
    { k with walk := { k.walk with nodes := k.walk.nodes + 1 } }

/-- A turn records, and does the same as without a record. -/
theorem walk_turn (file : SourceFile) (tree : SyntaxTree) (id : NodeId) (node : SyntaxNode)
    (k : Recording) (s : Subscriber) :
    (k.turn file tree id node s).walk = k.walk.turn file tree id node s := by
  unfold turn WalkState.turn
  split <;> rfl

/-- So does a visit, which takes the turns of all callbacks for a node. -/
theorem walk_visit (file : SourceFile) (tree : SyntaxTree) (interest : Interest) (k : Recording)
    (entry : NodeId × SyntaxNode) :
    (k.visit file tree interest entry).walk = k.walk.visit file tree interest entry := by
  rw [visit, WalkState.visit_eq]
  exact (List.foldl_hom Recording.walk fun k s =>
    (walk_turn file tree entry.1 entry.2 k s).symm).symm

end Recording

/-- Walks over a tree and records the calls. -/
def recorded (file : SourceFile) (tree : SyntaxTree) (interest : Interest) : Recording :=
  tree.enumerated.foldl (Recording.visit file tree interest)
    ⟨{ states := interest.rules.map fun _ => .active }, []⟩

/-- The records of the calls of a walk, in order. -/
def callRecords (file : SourceFile) (tree : SyntaxTree) (interest : Interest) : List CallRecord :=
  (recorded file tree interest).records

/-- Recording a walk does not change it, so that everything about the calls of a walk can be read
off its records. -/
theorem recorded_walk (file : SourceFile) (tree : SyntaxTree) (interest : Interest) :
    (recorded file tree interest).walk = walk file tree interest :=
  (List.foldl_hom Recording.walk fun k entry =>
    (Recording.walk_visit file tree interest k entry).symm).symm

/-- What holds at the start, and is kept by counting a node and by every recorded call, holds in the
end. The induction is over the nodes, and at each node over the callbacks. -/
theorem recorded_invariant {file : SourceFile} {tree : SyntaxTree} {interest : Interest}
    {P : Recording → Prop} (hstart : P ⟨{ states := interest.rules.map fun _ => .active }, []⟩)
    (hnode : ∀ k, P k → P { k with walk := { k.walk with nodes := k.walk.nodes + 1 } })
    (hcall : ∀ (k : Recording) (id : NodeId) (node : SyntaxNode), P k →
      tree.node? id = some node → ∀ s ∈ interest.subscribersOf node.kind,
        (k.walk.stateOf s.position).listens id = true →
        P ⟨k.walk.call file tree id node s,
          k.records ++ [.ofCall file tree id node s k.walk.reporter]⟩) :
    P (recorded file tree interest) := by
  unfold recorded
  refine List.foldlRecOn _ _ hstart fun k hk entry hentry => ?_
  refine List.foldlRecOn _ _ (hnode k hk) fun k hk s hs => ?_
  rw [Recording.turn]
  split
  · rename_i hlistens
    exact hcall k entry.1 entry.2 hk (SyntaxTree.mem_enumerated.1 hentry) s hs hlistens
  · exact hk

namespace Recording

/-- What the records say about the walk. -/
structure Faithful (tree : SyntaxTree) (interest : Interest) (k : Recording) : Prop where
  calls : k.walk.calls = k.records.map (·.call)
  reporter : k.walk.reporter = Reporter.ofCalls (k.records.flatMap (·.reports))
  failures : k.walk.failedRules = (k.records.filterMap (·.error?)).length
  length : k.walk.states.length = interest.rules.length
  /-- Callbacks are called at nodes that they are subscribed to. -/
  subscribed : ∀ i ∈ k.records,
    tree.node? i.id = some i.node ∧ i.subscriber ∈ interest.subscribersOf i.node.kind
  own : ∀ i ∈ k.records, ∀ d ∈ i.findings, ∃ finding, d = i.subscriber.active.diagnostic finding
  muted : ∀ i ∈ k.records, i.error?.isSome = true → k.walk.stateOf i.position = .failed
  /-- A rule that failed is not called again. -/
  final : k.records.Pairwise fun i j => i.error?.isSome = true → j.position ≠ i.position

/-- If the records account for the reporter, they still do after a call. The new record has the
reports of the call, and they come behind all others. -/
theorem reporter_call_eq {file : SourceFile} {tree : SyntaxTree} {k : Recording}
    (h : k.walk.reporter = Reporter.ofCalls (k.records.flatMap (·.reports))) (id : NodeId)
    (node : SyntaxNode) (s : Subscriber) :
    (k.walk.call file tree id node s).reporter = Reporter.ofCalls
      ((k.records ++ [CallRecord.ofCall file tree id node s k.walk.reporter]).flatMap
        (·.reports)) := by
  rw [WalkState.reporter_call, CallRecord.react_eq, h, List.flatMap_append, Reporter.ofCalls,
    Reporter.ofCalls, List.foldl_append]
  simp

/-- One call keeps the records faithful. A rule that has failed is not called, so that its failure
stays its last record; everything else is said of the new record by itself. -/
theorem Faithful.call {file : SourceFile} {tree : SyntaxTree} {interest : Interest}
    {k : Recording} {id : NodeId} {node : SyntaxNode} {s : Subscriber}
    (h : k.Faithful tree interest) (hnode : tree.node? id = some node)
    (hs : s ∈ interest.subscribersOf node.kind)
    (hlistens : (k.walk.stateOf s.position).listens id = true) :
    Faithful tree interest ⟨k.walk.call file tree id node s,
      k.records ++ [.ofCall file tree id node s k.walk.reporter]⟩ := by
  have hreact := CallRecord.react_eq file tree id node s k.walk.reporter
  have hlt : s.position < k.walk.states.length := by
    rw [h.length]
    exact Interest.position_lt_of_mem hs
  have hposition : (CallRecord.ofCall file tree id node s k.walk.reporter).position = s.position :=
    rfl
  generalize hi : CallRecord.ofCall file tree id node s k.walk.reporter = i at hreact hposition ⊢
  constructor
  case calls =>
    rw [WalkState.calls_call, h.calls, List.map_append, ← hi]
    rfl
  case reporter =>
    rw [← hi]
    exact reporter_call_eq h.reporter id node s
  case failures =>
    rw [WalkState.call_eq, hreact, List.filterMap_append, List.length_append, ← h.failures]
    simp only [CallRecord.failureCount_outcome, List.filterMap_cons, List.filterMap_nil]
    cases i.error? <;> rfl
  case length => rw [WalkState.length_states_call, h.length]
  case subscribed =>
    intro j hj
    rcases List.mem_append.1 hj with hj | hj
    · exact h.subscribed j hj
    · rw [List.mem_singleton.1 hj, ← hi]
      exact ⟨hnode, hs⟩
  case own =>
    intro j hj d hd
    rcases List.mem_append.1 hj with hj | hj
    · exact h.own j hj d hd
    · rw [List.mem_singleton.1 hj, ← hi] at hd ⊢
      exact Reaction.exists_of_mem_reports hd
  case muted =>
    intro j hj herror
    rcases List.mem_append.1 hj with hj | hj
    · -- The rule of `j` has failed, so that it is not the one that is called.
      have hfailed := h.muted j hj herror
      have hne : j.position ≠ s.position := by
        intro heq
        rw [← heq, hfailed] at hlistens
        cases hlistens
      rw [WalkState.stateOf_call_ne hne]
      exact hfailed
    · obtain rfl := List.mem_singleton.1 hj
      rw [hposition, WalkState.stateOf_call_self hlt, hreact]
      exact CallRecord.after_of_error? herror tree id _
  case final =>
    refine List.pairwise_append.2 ⟨h.final, List.pairwise_singleton _ _, ?_⟩
    intro j hj l hl herror heq
    rw [List.mem_singleton.1 hl, hposition] at heq
    rw [heq, h.muted j hj herror] at hlistens
    cases hlistens

/-- The records of a walk are faithful. -/
theorem faithful_recorded (file : SourceFile) (tree : SyntaxTree) (interest : Interest) :
    (recorded file tree interest).Faithful tree interest := by
  refine recorded_invariant ?_ (fun k hk => ?_) fun k id node hk hnode s hs hlistens => ?_
  · constructor <;> simp [WalkState.calls, Reporter.ofCalls]
  · exact ⟨hk.calls, hk.reporter, hk.failures, hk.length, hk.subscribed, hk.own, hk.muted, hk.final⟩
  · exact hk.call hnode hs hlistens

end Recording

end Arborist
