import Arborist.Proofs.Walk.CallRecord
import Arborist.Proofs.Walk.Refinement

/-!
# `Arborist.Proofs.Walk.Conduct`: rules that follow the tree alone

Most rules look at a node, report or not, and go on or skip what lies below. What they do depends on
the tree and not on what was reported before. A `Conduct` says what such a rule does at each node,
and `Rule.Follows` that a rule does so.

The calls of such a rule in a walk can be written down without walking (`callRecords_filter`). The
rule is called at the nodes it has callbacks for, in the order of the arena, except below those
where it skips. Here "those where it skips" may be read as all nodes where its conduct says so,
called or not: if there is any above a node, then the outermost one is below no other, so that the
rule was called there (`Conduct.exists_outermost`).
-/

set_option autoImplicit false

namespace Arborist

/-! ### Reactions and conducts -/

namespace Reaction

/-- The reaction reports these findings and ends in this way, whatever its reports are answered. -/
inductive Tells : Reaction → List Finding → Visit → Prop where
  | finish (visit : Visit) : Tells (.finish visit) [] visit
  | report {finding : Finding} {next : Bool → Reaction} {findings : List Finding} {visit : Visit}
      (h : ∀ isNew, Tells (next isNew) findings visit) :
      Tells (.report finding next) (finding :: findings) visit

/-- One report, whose answer is not looked at. -/
theorem tells_reportOne (finding : Finding) (visit : Visit) :
    (reportOne finding visit).Tells [finding] visit :=
  .report fun _ => .finish visit

/-- The diagnostics of such a reaction are those of its findings, whatever was reported before. -/
theorem Tells.reports_eq {reaction : Reaction} {findings : List Finding} {visit : Visit}
    (h : reaction.Tells findings visit) (active : ActiveRule) (r : Reporter) :
    reaction.reports active r = findings.map active.diagnostic := by
  induction h generalizing r with
  | finish visit => rfl
  | report h ih => rw [reports, ih, List.map_cons]

/-- Such a reaction does not fail, and its end does not depend on what was reported before. The
answers to its reports do not matter, because `Tells` asks for the same end under both. -/
theorem Tells.run_eq {reaction : Reaction} {findings : List Finding} {visit : Visit}
    (h : reaction.Tells findings visit) (active : ActiveRule) (r : Reporter) :
    (reaction.run active r).2 = .ok visit := by
  induction h generalizing r with
  | finish visit => rfl
  | report h ih =>
      rw [run_report]
      exact ih _ _

end Reaction

/-- What a rule does at a node of a tree. -/
structure Conduct where
  findings : SyntaxNode → List Finding
  /-- The rule is not to be called below the node. -/
  skips : SyntaxNode → Bool

/-- How a call ends. -/
def Conduct.visit (c : Conduct) (node : SyntaxNode) : Visit :=
  if c.skips node then .skipChildren else .proceed

/-- The rule conducts itself like this in a tree. -/
structure Rule.Follows (file : SourceFile) (tree : SyntaxTree) (rule : Rule) (c : Conduct) :
    Prop where
  tells : ∀ s ∈ rule.subscriptions, ∀ (id : NodeId) (node : SyntaxNode) (severity : Severity),
    tree.node? id = some node → s.kind = node.kind →
      (s.callback ⟨file, tree, id, node, severity⟩).Tells (c.findings node) (c.visit node)
  /-- It skips only where it is called. -/
  hears : ∀ node, c.skips node = true → ∃ s ∈ rule.subscriptions, s.kind = node.kind

/-! ### Nodes that are skipped -/

namespace SyntaxTree

variable {tree : SyntaxTree} {length : Nat}

/-- The ancestors of a node are the nodes that it lies below: parent links and subtrees say the
same. -/
theorem mem_ancestorNodes_iff (hvalid : tree.validate length = .ok ()) {id : Nat}
    (hid : id < tree.size) {above : SyntaxNode} :
    above ∈ tree.ancestorNodes id ↔ ∃ a, tree.Below a id ∧ tree.node? a = some above := by
  obtain ⟨chain, hchain, hmem⟩ := mem_ancestors_iff hvalid hid
  simp [ancestorNodes, hchain, hmem]

/-- On a valid tree, what lies below a node lies below the nodes above it. -/
theorem Below.trans_of_valid (hvalid : tree.validate length = .ok ()) {a b id : Nat}
    (hab : tree.Below a b) (hb : tree.Below b id) (hid : id < tree.size) : tree.Below a id := by
  obtain ⟨t, rfl⟩ := eq_arena_of_validate hvalid
  have hlt : a < t.arena.size := Nat.lt_trans hab.1 (Nat.lt_trans hb.1 hid)
  obtain ⟨u, hu⟩ := exists_storedAt_arena t hlt
  exact hab.trans hu hb

/-- On a valid tree every subtree has an end. -/
theorem exists_subtreeEnd (hvalid : tree.validate length = .ok ()) {id : Nat}
    (hid : id < tree.size) : ∃ stop, tree.subtreeEnd? id = some stop := by
  obtain ⟨t, rfl⟩ := eq_arena_of_validate hvalid
  obtain ⟨u, hu⟩ := exists_storedAt_arena t hid
  exact ⟨_, subtreeEnd?_eq hu⟩

/-- The nodes are listed in the order of the arena, each with its position. -/
theorem getElem?_enumerated (tree : SyntaxTree) (id : Nat) :
    tree.enumerated[id]? = (tree.node? id).map fun node => (id, node) := by
  rw [enumerated, List.getElem?_map, List.getElem?_zipIdx, node?_eq, Option.map_map]
  simp [Function.comp_def]

/-- Every node of the arena is listed once. -/
theorem length_enumerated (tree : SyntaxTree) : tree.enumerated.length = tree.size := by
  simp [enumerated, size_eq]

/-- The nodes that come before a node in the arena are those with a smaller number. -/
theorem mem_take_enumerated {id a : Nat} {above : SyntaxNode} :
    (a, above) ∈ tree.enumerated.take id ↔ a < id ∧ tree.node? a = some above := by
  simp only [List.mem_iff_getElem?, List.getElem?_take, getElem?_enumerated]
  constructor
  · rintro ⟨i, hget⟩
    by_cases hlt : i < id
    · rw [if_pos hlt, Option.map_eq_some_iff] at hget
      obtain ⟨node, hnode, heq⟩ := hget
      cases heq
      exact ⟨hlt, hnode⟩
    · rw [if_neg hlt] at hget
      cases hget
  · rintro ⟨hlt, hnode⟩
    exact ⟨a, by rw [if_pos hlt, hnode]; rfl⟩

end SyntaxTree

namespace Conduct

variable {tree : SyntaxTree} {length : Nat} {c : Conduct}

/-- The node lies below one where the rule skips. -/
def shades (tree : SyntaxTree) (c : Conduct) (id : NodeId) : Bool :=
  (tree.ancestorNodes id).any c.skips

/-- A node is in the shade of a conduct if it lies below some node where the conduct skips. This is
about the tree only, and not about which calls were made. -/
theorem shades_iff (hvalid : tree.validate length = .ok ()) {id : Nat} (hid : id < tree.size) :
    c.shades tree id = true ↔
      ∃ a above, tree.Below a id ∧ tree.node? a = some above ∧ c.skips above = true := by
  simp only [shades, List.any_eq_true, SyntaxTree.mem_ancestorNodes_iff hvalid hid]
  constructor
  · rintro ⟨above, ⟨a, hbelow, hnode⟩, hskips⟩
    exact ⟨a, above, hbelow, hnode, hskips⟩
  · rintro ⟨a, above, hbelow, hnode, hskips⟩
    exact ⟨above, ⟨a, hbelow, hnode⟩, hskips⟩

/-- Of the nodes above that are skipped at, the outermost is not below another. It is the one with
the least number. -/
theorem exists_outermost (hvalid : tree.validate length = .ok ()) {id : Nat}
    (hid : id < tree.size) (h : c.shades tree id = true) :
    ∃ a above, tree.Below a id ∧ tree.node? a = some above ∧ c.skips above = true ∧
      c.shades tree a = false := by
  classical
  have hexists := (shades_iff hvalid hid).1 h
  obtain ⟨above, hbelow, hnode, hskips⟩ := Nat.find_spec hexists
  refine ⟨Nat.find hexists, above, hbelow, hnode, hskips, ?_⟩
  rw [← Bool.not_eq_true, shades_iff hvalid (SyntaxTree.lt_size_of_node? hnode)]
  rintro ⟨b, outer, hb, houter, houterSkips⟩
  have hbid : tree.Below b id := hb.trans_of_valid hvalid hbelow hid
  exact Nat.find_min hexists hb.1 ⟨outer, hbid, houter, houterSkips⟩

end Conduct

/-! ### The calls of a rule -/

/-- The call with its end, as a log keeps it. -/
def CallRecord.logged (i : CallRecord) : LoggedCall := ⟨i.call, i.outcome⟩

namespace Conduct

/-- The record of a call at a node. -/
def recordOf (c : Conduct) (position : Nat) (active : ActiveRule) (id : NodeId)
    (node : SyntaxNode) (s : Subscription) : CallRecord :=
  ⟨id, node, ⟨position, active, s⟩, (c.findings node).map active.diagnostic, .ok (c.visit node)⟩

/-- The records of the calls at a node: none below a node where the rule skips. -/
def recordsAt (tree : SyntaxTree) (c : Conduct) (position : Nat) (active : ActiveRule)
    (entry : NodeId × SyntaxNode) : List CallRecord :=
  if c.shades tree entry.1 then []
  else (active.rule.subscriptions.filter (·.kind = entry.2.kind)).map
    (c.recordOf position active entry.1 entry.2)

/-- The records of all calls, in order. -/
def records (tree : SyntaxTree) (c : Conduct) (position : Nat) (active : ActiveRule) :
    List CallRecord :=
  tree.enumerated.flatMap (c.recordsAt tree position active)

section
variable {file : SourceFile} {tree : SyntaxTree} {length : Nat} {c : Conduct} {position : Nat}
  {active : ActiveRule}

/-- A call by a conduct keeps its rule from being called below the node if the conduct skips there.
It never silences the rule for good. -/
theorem mutes_recordOf {id j : Nat} {node : SyntaxNode} {s : Subscription} :
    (c.recordOf position active id node s).logged.mutes tree j = true ↔
      c.skips node = true ∧ tree.Below id j := by
  have hsilences : (c.recordOf position active id node s).logged.silences = false := by
    by_cases h : c.skips node = true <;>
      simp [CallRecord.logged, recordOf, visit, LoggedCall.silences, h]
  have hskips : (c.recordOf position active id node s).logged.skips = c.skips node := by
    by_cases h : c.skips node = true <;>
      simp [CallRecord.logged, recordOf, visit, LoggedCall.skips, h]
  rw [LoggedCall.mutes_iff, hsilences, hskips]
  simp [CallRecord.logged, CallRecord.call, recordOf]

/-- The calls before a node keep the rule from being called there exactly if the node lies below one
where the rule skips. -/
theorem any_mutes_eq_shades (hvalid : tree.validate length = .ok ())
    (hrule : active.rule.Follows file tree c) {id : Nat} (hid : id < tree.size) :
    (((tree.enumerated.take id).flatMap (c.recordsAt tree position active)).any
      fun i => i.logged.mutes tree id) = c.shades tree id := by
  rw [Bool.eq_iff_iff, List.any_eq_true]
  constructor
  · rintro ⟨i, hi, hmutes⟩
    obtain ⟨⟨a, above⟩, hentry, hi⟩ := List.mem_flatMap.1 hi
    rw [recordsAt] at hi
    split at hi
    · cases hi
    · obtain ⟨s, -, rfl⟩ := List.mem_map.1 hi
      obtain ⟨hskips, hbelow⟩ := mutes_recordOf.1 hmutes
      have hnode := (SyntaxTree.mem_take_enumerated.1 hentry).2
      exact (shades_iff hvalid hid).2 ⟨a, above, hbelow, hnode, hskips⟩
  · -- The rule was called at the outermost of these nodes.
    intro hshades
    obtain ⟨a, above, hbelow, hnode, hskips, houter⟩ := exists_outermost hvalid hid hshades
    obtain ⟨s, hs, hkind⟩ := hrule.hears above hskips
    refine ⟨c.recordOf position active a above s, ?_, mutes_recordOf.2 ⟨hskips, hbelow⟩⟩
    refine List.mem_flatMap.2 ⟨(a, above), SyntaxTree.mem_take_enumerated.2 ⟨hbelow.1, hnode⟩, ?_⟩
    rw [recordsAt, if_neg (by simp [houter])]
    exact List.mem_map.2 ⟨s, List.mem_filter.2 ⟨hs, decide_eq_true hkind⟩, rfl⟩

/-- The record of a call of such a rule is the one that its conduct says, whatever was reported
before. -/
theorem ofCall_eq (hrule : active.rule.Follows file tree c) {id : Nat} {node : SyntaxNode}
    (hnode : tree.node? id = some node) {s : Subscription} (hs : s ∈ active.rule.subscriptions)
    (hkind : s.kind = node.kind) (r : Reporter) :
    CallRecord.ofCall file tree id node ⟨position, active, s⟩ r =
      c.recordOf position active id node s := by
  have htells := hrule.tells s hs id node active.severity hnode hkind
  simp only [CallRecord.ofCall, recordOf, htells.reports_eq, htells.run_eq]

end

end Conduct

/-! ### The rule in a walk -/

/-- The calls so far of the rule at a position are `done`, and from `next` on its state fits
them. -/
structure Recording.Follows (tree : SyntaxTree) (interest : Interest) (position : Nat)
    (done : List CallRecord) (next : Nat) (k : Recording) : Prop where
  records : k.records.filter (·.position = position) = done
  length : k.walk.states.length = interest.rules.length
  fits : (k.walk.stateOf position).Fits tree next fun j => done.any fun i => i.logged.mutes tree j

namespace Recording.Follows

variable {file : SourceFile} {tree : SyntaxTree} {interest : Interest} {position : Nat}
  {done : List CallRecord} {next id : Nat} {node : SyntaxNode} {k : Recording}

/-- What fits from a position on fits from every later one on. -/
theorem mono {next' : Nat} (h : k.Follows tree interest position done next)
    (hle : next ≤ next') : k.Follows tree interest position done next' :=
  { h with fits := h.fits.mono hle }

/-- The turn of another rule changes nothing: the calls at this position stay the same, and so does
the state. -/
theorem turn_other (h : k.Follows tree interest position done next) {s : Subscriber}
    (hs : s.position ≠ position) :
    (k.turn file tree id node s).Follows tree interest position done next := by
  rw [turn]
  split
  · constructor
    · have hother : (CallRecord.ofCall file tree id node s k.walk.reporter).position ≠ position :=
        hs
      simp [List.filter_append, h.records, hother]
    · rw [WalkState.length_states_call, h.length]
    · rw [WalkState.stateOf_call_ne (Ne.symm hs)]
      exact h.fits
  · exact h

/-- The rule's own turn is a call, unless its calls so far speak against it. The call and its record
are then the ones that the conduct says. -/
theorem turn_self {active : ActiveRule} {c : Conduct}
    (h : k.Follows tree interest position done id) (hlt : position < interest.rules.length)
    (hrule : active.rule.Follows file tree c) (hnode : tree.node? id = some node) {stop : Nat}
    (hend : tree.subtreeEnd? id = some stop) {s : Subscription}
    (hs : s ∈ active.rule.subscriptions) (hkind : s.kind = node.kind) :
    (k.turn file tree id node ⟨position, active, s⟩).Follows tree interest position
      (done ++ if done.any (fun i => i.logged.mutes tree id) then []
        else [c.recordOf position active id node s]) id := by
  have hlistens := h.fits.listens id (Nat.le_refl id)
  have hcall : CallRecord.ofCall file tree id node ⟨position, active, s⟩ k.walk.reporter =
      c.recordOf position active id node s := Conduct.ofCall_eq hrule hnode hs hkind _
  rw [turn]
  by_cases hmuted : (done.any fun i => i.logged.mutes tree id) = true
  · rw [if_pos hmuted, List.append_nil, if_neg (by simp [hlistens, hmuted])]
    exact h
  · -- The call is made, and with its end the state fits one call more.
    have hlistens : (k.walk.stateOf position).listens id = true := by
      rw [hlistens]
      simpa using hmuted
    rw [if_neg hmuted, if_pos hlistens, hcall]
    have hreact := CallRecord.react_eq file tree id node ⟨position, active, s⟩ k.walk.reporter
    constructor
    · have hown : (c.recordOf position active id node s).position = position := rfl
      simp [List.filter_append, h.records, hown]
    · rw [WalkState.length_states_call, h.length]
    · rw [WalkState.stateOf_call_self (by rw [h.length]; exact hlt), hreact, hcall]
      have hfits := h.fits.call hlistens hend (c.recordOf position active id node s).logged rfl
      simp only [List.any_append, List.any_cons, List.any_nil, Bool.or_false]
      exact hfits

/-- All callbacks for a node. Calls at the node do not mute the rule there, so that either all
callbacks of the rule are called or none is. -/
theorem turns {active : ActiveRule} {c : Conduct} (subscribers : List Subscriber)
    (h : k.Follows tree interest position done id)
    (hactive : interest.rules[position]? = some active)
    (hrule : active.rule.Follows file tree c) (hnode : tree.node? id = some node) {stop : Nat}
    (hend : tree.subtreeEnd? id = some stop)
    (hsubscribers : ∀ s ∈ subscribers, s ∈ interest.subscribersOf node.kind) :
    (subscribers.foldl (turn file tree id node) k).Follows tree interest position
      (done ++ if done.any (fun i => i.logged.mutes tree id) then []
        else (subscribers.filter (·.position = position)).map fun s =>
          c.recordOf position active id node s.subscription) id := by
  induction subscribers generalizing k done with
  | nil => simpa using h
  | cons s rest ih =>
      obtain ⟨hs, hrest⟩ := List.forall_mem_cons.1 hsubscribers
      rw [List.foldl_cons]
      by_cases hposition : s.position = position
      · obtain ⟨hrules, hmem, hkind⟩ := Interest.mem_subscribersOf.1 hs
        obtain rfl : s.active = active := by
          rw [hposition, hactive] at hrules
          exact (Option.some.inj hrules).symm
        subst hposition
        have hlt := Interest.position_lt_of_mem hs
        have hstep := ih (h.turn_self hlt hrule hnode hend hmem hkind) hrest
        -- The call at the node itself is no reason against another one there.
        have hown : (c.recordOf s.position s.active id node s.subscription).logged.mutes tree id =
            false := by
          rw [← Bool.not_eq_true, Conduct.mutes_recordOf]
          exact fun hmutes => Trace.not_below_self hmutes.2
        by_cases hmuted : (done.any fun i => i.logged.mutes tree id) = true
        · simpa [hmuted] using hstep
        · simpa [hmuted, hown] using hstep
      · have hother : (k.turn file tree id node s).Follows tree interest position done id :=
          h.turn_other hposition
        rw [List.filter_cons_of_neg (by simpa using hposition)]
        exact ih hother hrest

/-- A visit adds the calls at the node: all of those for its kind, or none if the node is in the
shade. -/
theorem visit {active : ActiveRule} {c : Conduct} (h : k.Follows tree interest position done id)
    (hactive : interest.rules[position]? = some active)
    (hrule : active.rule.Follows file tree c) (hnode : tree.node? id = some node) {stop : Nat}
    (hend : tree.subtreeEnd? id = some stop)
    (hdone : (done.any fun i => i.logged.mutes tree id) = c.shades tree id) :
    (k.visit file tree interest (id, node)).Follows tree interest position
      (done ++ c.recordsAt tree position active (id, node)) (id + 1) := by
  have hcounted : Recording.Follows tree interest position done id
      { k with walk := { k.walk with nodes := k.walk.nodes + 1 } } :=
    ⟨h.records, h.length, h.fits⟩
  have hturns := hcounted.turns (interest.subscribersOf node.kind) hactive hrule hnode hend
    fun s hs => hs
  -- What mutes the rule at this node is what shades the node.
  rw [hdone, Interest.subscribersOf_at hactive, List.map_map] at hturns
  exact hturns.mono (Nat.le_succ id)

end Recording.Follows

section
variable {file : SourceFile} {tree : SyntaxTree} {length : Nat} {interest : Interest}
  {position : Nat} {active : ActiveRule} {c : Conduct}

/-- The walk up to a position of the arena. The induction is on this position; that the calls so far
mute the rule at the next node exactly if it is in the shade is `any_mutes_eq_shades`. -/
theorem follows_take (hvalid : tree.validate length = .ok ())
    (hactive : interest.rules[position]? = some active)
    (hrule : active.rule.Follows file tree c) (id : Nat) :
    ((tree.enumerated.take id).foldl (Recording.visit file tree interest)
      ⟨{ states := interest.rules.map fun _ => .active }, []⟩).Follows tree interest position
        ((tree.enumerated.take id).flatMap (c.recordsAt tree position active)) id := by
  induction id with
  | zero =>
      refine ⟨by simp, by simp, ?_⟩
      simp only [List.take_zero, List.foldl_nil, WalkState.stateOf_start]
      exact ⟨fun _ _ => rfl, fun _ _ hstate => by cases hstate⟩
  | succ id ih =>
      rw [List.take_add_one, SyntaxTree.getElem?_enumerated]
      cases hnode : tree.node? id with
      | none =>
          -- The arena has ended before.
          simpa using ih.mono (Nat.le_succ id)
      | some node =>
          have hid := SyntaxTree.lt_size_of_node? hnode
          obtain ⟨stop, hend⟩ := SyntaxTree.exists_subtreeEnd hvalid hid
          have hstep := ih.visit hactive hrule hnode hend
            (Conduct.any_mutes_eq_shades hvalid hrule hid)
          simpa [List.foldl_append] using hstep

/-- The calls of a rule that follows a conduct, among those of all rules in use. They can be written
down from the tree and the conduct alone. -/
theorem callRecords_filter (hvalid : tree.validate length = .ok ())
    (hactive : interest.rules[position]? = some active)
    (hrule : active.rule.Follows file tree c) :
    (callRecords file tree interest).filter (·.position = position) =
      c.records tree position active := by
  have hall := (follows_take hvalid hactive hrule tree.size).records
  rwa [← SyntaxTree.length_enumerated, List.take_length] at hall

end

end Arborist
