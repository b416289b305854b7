import Arborist.Proofs.Interest
import Arborist.Proofs.Walk.Traversal

/-!
# `Arborist.Proofs.Walk.Refinement`: the walk is the recursive traversal

The walk keeps one small state for each rule and forgets what it does not need: a rule that has left
the subtree it skipped is as good as new. The scan keeps the whole log and forgets nothing.
`RuleState.Fits` says that from a position on both give the same answers, and one call keeps it
(`Fits.call`). `Agrees` is this for all rules at once, with equal reports and equal calls, and holds
along the whole walk (`agrees_walk`).

The scan also shows how often each callback is called. `Trace.Around` splits the final log at the
turn of a callback: the entries before decide whether the call is made, and no entry before or after
has the same node, rule and slot. `walk_follows_traverse` puts all of this together.
-/

set_option autoImplicit false

namespace Arborist

/-! ### One rule -/

/-- From `next` on, the state lets the rule be called where `hushed` does not speak against it. A
skipped subtree has begun by then and is the subtree of its root. -/
structure RuleState.Fits (tree : SyntaxTree) (next : Nat) (state : RuleState)
    (hushed : Nat → Bool) : Prop where
  listens : ∀ id : Nat, next ≤ id → state.listens id = !hushed id
  skipped : ∀ root stop : Nat, state = .mutedWithin root stop →
    root ≤ next ∧ tree.subtreeEnd? root = some stop

namespace RuleState

/-- What fits from a position on fits from every later one on. -/
theorem Fits.mono {tree : SyntaxTree} {next next' : Nat} {state : RuleState} {hushed : Nat → Bool}
    (h : state.Fits tree next hushed) (hle : next ≤ next') : state.Fits tree next' hushed where
  listens id hid := h.listens id (Nat.le_trans hle hid)
  skipped root stop hstate :=
    ⟨Nat.le_trans (h.skipped root stop hstate).1 hle, (h.skipped root stop hstate).2⟩

/-- A rule that is called at a node is called at all later ones, unless they lie below the node and
it has skipped there just before. -/
theorem Fits.listens_later {tree : SyntaxTree} {id j : Nat} {state : RuleState}
    {hushed : Nat → Bool} (h : state.Fits tree id hushed) (hlistens : state.listens id = true)
    (hj : id ≤ j) :
    state.listens j = true ∨
      ∃ stop : Nat, state = .mutedWithin id stop ∧ tree.subtreeEnd? id = some stop := by
  -- Only a skipped subtree needs thought: it began at the node or was left before it.
  cases hstate : state with
  | active => exact .inl rfl
  | stopped | failed =>
      rw [hstate] at hlistens
      cases hlistens
  | mutedWithin root stop =>
      obtain ⟨hroot, hend⟩ := h.skipped root stop hstate
      by_cases heq : root = id
      · subst heq
        exact .inr ⟨stop, rfl, hend⟩
      · left
        rw [hstate] at hlistens
        simp only [RuleState.listens, Bool.not_eq_true', Bool.and_eq_false_iff,
          decide_eq_false_iff_not] at hlistens ⊢
        have hlt : root < id := Nat.lt_of_le_of_ne hroot heq
        have hstop : ¬ id < stop := hlistens.resolve_left (fun hnot => hnot hlt)
        exact .inr (fun hlater => hstop (Nat.lt_of_le_of_lt hj hlater))

/-- Entering a node where the rule is called changes nothing from there on. If a skipped subtree is
forgotten, then it ended before the node. -/
theorem Fits.listens_enter {tree : SyntaxTree} {id j : Nat} {state : RuleState}
    {hushed : Nat → Bool} (h : state.Fits tree id hushed) (hlistens : state.listens id = true)
    (hj : id ≤ j) : (state.enter id).listens j = state.listens j := by
  rcases h.listens_later hlistens hj with hlater | ⟨stop, rfl, -⟩
  · rw [hlater]
    cases state with
    | active => rfl
    | stopped | failed => exact hlater
    -- The skipped subtree is forgotten if the node is behind it.
    | mutedWithin root stop =>
        rw [enter]
        split
        · exact hlater
        · rfl
  · rw [enter, if_pos rfl]

/-- One call keeps state and log in step. The cases are the ways in which a call can end; where it
skips, the rule may have skipped at the same node before, with the same end of the subtree. -/
theorem Fits.call {tree : SyntaxTree} {id stop : Nat} {state : RuleState} {hushed : Nat → Bool}
    (h : state.Fits tree id hushed) (hlistens : state.listens id = true)
    (hend : tree.subtreeEnd? id = some stop) (e : LoggedCall) (he : e.call.node = id) :
    (state.after tree id e.outcome).Fits tree id (fun j => hushed j || e.mutes tree j) := by
  obtain ⟨call, outcome⟩ := e
  subst he
  match outcome with
  | .ok .stop | .error _ =>
      refine ⟨fun j hj => ?_, fun root stop hstate => by cases hstate⟩
      simp [RuleState.after, RuleState.listens, LoggedCall.mutes, LoggedCall.silences]
  | .ok .proceed =>
      constructor
      · intro j hj
        rw [RuleState.after, h.listens_enter hlistens hj, h.listens j hj]
        simp [LoggedCall.mutes, LoggedCall.silences, LoggedCall.skips]
      · intro root stop hstate
        refine h.skipped root stop ?_
        cases state with
        | active | stopped | failed => exact hstate
        | mutedWithin root' stop' =>
            rw [RuleState.after, enter] at hstate
            split at hstate
            · exact hstate
            · cases hstate
  | .ok .skipChildren =>
      constructor
      · intro j hj
        have hold : hushed j = !state.listens j := by
          rw [h.listens j hj, Bool.not_not]
        have hmutes : LoggedCall.mutes tree ⟨call, .ok .skipChildren⟩ j =
            (decide (call.node < j) && decide (j < stop)) := by
          simp [LoggedCall.mutes, LoggedCall.silences, LoggedCall.skips, hend]
        rw [hold, hmutes, RuleState.after, hend, Option.getD_some]
        rcases h.listens_later hlistens hj with hlater | ⟨stop', hstate, hend'⟩
        · rw [hlater]
          rfl
        · -- The rule has skipped here already, and the subtree is the same.
          obtain rfl : stop = stop' := Option.some.inj (hend.symm.trans hend')
          rw [hstate]
          simp [RuleState.listens]
      · intro root stop' hstate
        rw [RuleState.after, hend, Option.getD_some] at hstate
        cases hstate
        exact ⟨Nat.le_refl _, hend⟩

end RuleState

/-! ### All rules -/

/-- The walk and the scan have made the same reports and the same calls, and from `next` on the
states of the rules fit the log. -/
structure Agrees (tree : SyntaxTree) (interest : Interest) (next : Nat) (w : WalkState)
    (g : Trace) : Prop where
  reporter : w.reporter = g.reporter
  calls : w.calls = g.log.map (·.call)
  length : w.states.length = interest.rules.length
  states : ∀ position, position < interest.rules.length →
    (w.stateOf position).Fits tree next fun id => g.hushed tree id position

/-- A call adds one reason more not to call its own rule, where it mutes the rule. -/
theorem Trace.hushed_invoke {file : SourceFile} {tree : SyntaxTree} {id : NodeId}
    {node : SyntaxNode} {g : Trace} {s : Subscriber} (j : NodeId) (position : Nat) :
    (g.invoke file tree id node s).hushed tree j position =
      (g.hushed tree j position || (decide (s.position = position) && LoggedCall.mutes tree
        ⟨⟨id, s.position, s.subscription.slot⟩, (s.react file tree id node g.reporter).2⟩ j)) := by
  simp [hushed]

namespace Agrees

variable {file : SourceFile} {tree : SyntaxTree} {interest : Interest} {w : WalkState} {g : Trace}

/-- What agrees from a position on agrees from every later one on. -/
theorem mono {next next' : Nat} (h : Agrees tree interest next w g) (hle : next ≤ next') :
    Agrees tree interest next' w g :=
  { h with states := fun position hlt => (h.states position hlt).mono hle }

/-- A call in the walk is a call in the scan. The state of the called rule changes with how the call
ended, and those of the others stay, as they do in the log. -/
theorem call {id stop : Nat} {node : SyntaxNode} {s : Subscriber}
    (h : Agrees tree interest id w g) (hlistens : (w.stateOf s.position).listens id = true)
    (hend : tree.subtreeEnd? id = some stop) :
    Agrees tree interest id (w.call file tree id node s) (g.invoke file tree id node s) where
  reporter := by
    rw [WalkState.reporter_call, h.reporter]
    rfl
  calls := by
    rw [WalkState.calls_call, Trace.log_invoke, List.map_append, h.calls]
    rfl
  length := by rw [WalkState.length_states_call, h.length]
  states := by
    intro position hlt
    simp only [Trace.hushed_invoke]
    by_cases hposition : position = s.position
    · -- The state of the called rule has to say what the log says with this call in it.
      subst hposition
      rw [WalkState.stateOf_call_self (by rwa [h.length]), h.reporter]
      simp only [decide_true, Bool.true_and]
      exact (h.states _ hlt).call hlistens hend
        ⟨⟨id, s.position, s.subscription.slot⟩, (s.react file tree id node g.reporter).2⟩ rfl
    · rw [WalkState.stateOf_call_ne hposition]
      simp only [decide_eq_false (Ne.symm hposition), Bool.false_and, Bool.or_false]
      exact h.states position hlt

/-- Offering a node to the same callbacks keeps walk and scan in step. Both decide on each call
anew, so that a callback may still be called at the node after another one of its rule. -/
theorem offer {id stop : Nat} {node : SyntaxNode} {subscribers : List Subscriber}
    (h : Agrees tree interest id w g)
    (hsubscribers : ∀ s ∈ subscribers, s.position < interest.rules.length)
    (hend : tree.subtreeEnd? id = some stop) :
    Agrees tree interest id
      (subscribers.foldl (WalkState.turn file tree id node) w)
      (g.offer file tree id node subscribers) := by
  induction subscribers generalizing w g with
  | nil => exact h
  | cons s subscribers ih =>
      obtain ⟨hs, hrest⟩ := List.forall_mem_cons.1 hsubscribers
      have hdecision := (h.states s.position hs).listens id (Nat.le_refl id)
      rw [Trace.offer, List.foldl_cons, List.foldl_cons, ← Trace.offer, WalkState.turn,
        Trace.turn]
      -- The state says to call exactly if the log does not say to be quiet.
      by_cases hhushed : g.hushed tree id s.position = true
      · rw [if_neg (by simp [hdecision, hhushed]), if_pos hhushed]
        exact ih h hrest
      · have hlistens : (w.stateOf s.position).listens id = true := by
          rw [hdecision]
          simpa using hhushed
        rw [if_pos hlistens, if_neg hhushed]
        exact ih (h.call hlistens hend) hrest

/-- Visiting a node is scanning its position. The walk also counts the node, which no rule sees. -/
theorem visit {id stop : Nat} {node : SyntaxNode} (h : Agrees tree interest id w g)
    (hnode : tree.node? id = some node) (hend : tree.subtreeEnd? id = some stop) :
    Agrees tree interest id (w.visit file tree interest (id, node))
      (g.scanNode file tree interest id) := by
  have hstart : Agrees tree interest id { w with nodes := w.nodes + 1 } g :=
    ⟨h.reporter, h.calls, h.length, h.states⟩
  rw [WalkState.visit_eq, Trace.scanNode_eq hnode]
  exact hstart.offer (fun s hs => Interest.position_lt_of_mem hs) hend

/-- Visiting nodes with rising positions is scanning these positions. Positions may be left out,
since a state that fits from one position on also fits from later ones on. -/
theorem visits {next : Nat} {entries : List (NodeId × SyntaxNode)}
    (h : Agrees tree interest next w g) (hnext : ∀ entry ∈ entries, next ≤ entry.1)
    (hrising : entries.Pairwise fun a b => a.1 < b.1)
    (hnodes : ∀ entry ∈ entries, tree.node? entry.1 = some entry.2)
    (hends : ∀ entry ∈ entries, ∃ stop, tree.subtreeEnd? entry.1 = some stop) :
    ∃ last, Agrees tree interest last (entries.foldl (WalkState.visit file tree interest) w)
      ((entries.map (·.1)).foldl (Trace.scanNode file tree interest) g) := by
  induction entries generalizing next w g with
  | nil => exact ⟨next, h⟩
  | cons entry entries ih =>
      obtain ⟨id, node⟩ := entry
      obtain ⟨hfirst, hrising⟩ := List.pairwise_cons.1 hrising
      obtain ⟨hnode, hnodes⟩ := List.forall_mem_cons.1 hnodes
      obtain ⟨⟨stop, hend⟩, hends⟩ := List.forall_mem_cons.1 hends
      have hstep : Agrees tree interest id (w.visit file tree interest (id, node))
          (g.scanNode file tree interest id) :=
        (h.mono (hnext _ (by simp))).visit hnode hend
      exact ih hstep (fun later hlater => Nat.le_of_lt (hfirst later hlater)) hrising hnodes hends

end Agrees

/-- The nodes are listed by the numbers from 0 on. -/
theorem SyntaxTree.enumerated_map_fst (tree : SyntaxTree) :
    tree.enumerated.map (·.1) = List.range' 0 tree.size := by
  rw [enumerated, List.map_map, size_eq]
  exact List.zipIdx_map_snd 0 tree.nodes.toList

/-- They are listed with rising numbers. -/
theorem SyntaxTree.pairwise_enumerated (tree : SyntaxTree) :
    tree.enumerated.Pairwise fun a b => a.1 < b.1 := by
  have hrising : (tree.enumerated.map (·.1)).Pairwise (· < ·) := by
    rw [enumerated_map_fst]
    exact List.pairwise_lt_range'
  exact List.pairwise_map.1 hrising

/-- On the arena of a tree, walk and scan agree. They start with nothing logged and all rules
active, and every position of the arena has an end of its subtree. -/
theorem agrees_walk (file : SourceFile) (interest : Interest) (t : OrderedTree) :
    ∃ last, Agrees t.arena interest last (walk file t.arena interest)
      (scan file t.arena interest) := by
  -- Nothing is logged, and all rules listen.
  have hstart : Agrees t.arena interest 0 { states := interest.rules.map fun _ => .active } {} := by
    refine ⟨rfl, rfl, by simp, fun position _ => ?_⟩
    rw [WalkState.stateOf_start]
    exact ⟨fun _ _ => rfl, fun _ _ hstate => by cases hstate⟩
  have hnodes : ∀ entry ∈ t.arena.enumerated, t.arena.node? entry.1 = some entry.2 :=
    fun entry hentry => SyntaxTree.mem_enumerated.1 hentry
  rw [walk, scan, ← SyntaxTree.enumerated_map_fst]
  refine hstart.visits (fun _ _ => Nat.zero_le _) t.arena.pairwise_enumerated hnodes ?_
  intro entry hentry
  obtain ⟨u, hu⟩ := SyntaxTree.exists_storedAt_arena t
    (SyntaxTree.lt_size_of_node? (hnodes entry hentry))
  exact ⟨_, SyntaxTree.subtreeEnd?_eq hu⟩

/-! ### How often a callback is called -/

/-- The call comes before the turn of the callback that stands behind `before` at `id`. -/
def Call.Precedes (c : Call) (id : NodeId) (before : List Subscriber) : Prop :=
  c.node < id ∨ c.IsAt id before

/-- The call comes after the turn of the callback that stands before `after` at `id`. -/
def Call.Succeeds (c : Call) (id : NodeId) (after : List Subscriber) : Prop :=
  id < c.node ∨ c.IsAt id after

/-- When the turn of a callback comes, its rule is out: it has skipped at an ancestor of the node,
or it has stopped or failed earlier. -/
def Trace.OutAt (tree : SyntaxTree) (g : Trace) (id : NodeId) (before : List Subscriber)
    (position : Nat) : Prop :=
  ∃ e ∈ g.log, e.call.position = position ∧
    ((e.skips = true ∧ ∃ chain, tree.ancestors? id = some chain ∧ e.call.node ∈ chain) ∨
      (e.silences = true ∧ e.call.Precedes id before))

/-- The final log around the turn of one callback: what `g` has logged before, then `own`, which is
at most the call itself, and then `late`. -/
structure Trace.Around (tree : SyntaxTree) (id : NodeId) (before : List Subscriber) (s : Subscriber)
    (after : List Subscriber) (g : Trace) (own late log : List LoggedCall) : Prop where
  split : log = g.log ++ own ++ late
  early : ∀ e ∈ g.log, e.call.Precedes id before
  turn : own.map (·.call) =
    if g.hushed tree id s.position then [] else [⟨id, s.position, s.subscription.slot⟩]
  late : ∀ e ∈ late, e.call.Succeeds id after

/-- A scan gives each callback for the kind of a node its turn there. Everything else that is
scanned comes before this turn or after it. -/
theorem scan_around {file : SourceFile} {tree : SyntaxTree} {interest : Interest} {id : Nat}
    {node : SyntaxNode} {before after : List Subscriber} {s : Subscriber}
    (hnode : tree.node? id = some node)
    (hsubscribers : interest.subscribersOf node.kind = before ++ s :: after) :
    ∃ (g : Trace) (own late : List LoggedCall),
      Trace.Around tree id before s after g own late (scan file tree interest).log := by
  have hid := SyntaxTree.lt_size_of_node? hnode
  have hrange : List.range' 0 tree.size =
      List.range' 0 id ++ id :: List.range' (id + 1) (tree.size - (id + 1)) := by
    rw [← List.range'_succ]
    have happend := @List.range'_append_1 0 id (tree.size - (id + 1) + 1)
    rw [Nat.zero_add] at happend
    rw [happend]
    congr 1
    omega
  rw [scan, hrange, List.foldl_append, List.foldl_cons, Trace.scanNode_eq hnode, hsubscribers,
    Trace.offer, List.foldl_append, List.foldl_cons, ← Trace.offer, ← Trace.offer]
  -- Five stages: the nodes before `id`, the callbacks before `s`, `s` itself, the callbacks behind
  -- it, and the nodes behind `id`. Each stage only appends to the log of the stage before.
  obtain ⟨first, hfirst, hfirstCalls⟩ :=
    @Trace.log_scanNodes file tree interest (List.range' 0 id) {}
  generalize (List.range' 0 id).foldl (Trace.scanNode file tree interest) {} = arrived at hfirst ⊢
  obtain ⟨early, hearly, hearlyCalls⟩ := @Trace.log_offer file tree id node before arrived
  generalize arrived.offer file tree id node before = g at hearly ⊢
  obtain ⟨own, hown, hownCalls⟩ := @Trace.log_turn file tree id node g s
  generalize g.turn file tree id node s = turned at hown ⊢
  obtain ⟨rest, hrest, hrestCalls⟩ := @Trace.log_offer file tree id node after turned
  generalize turned.offer file tree id node after = left at hrest ⊢
  obtain ⟨last, hlast, hlastCalls⟩ := @Trace.log_scanNodes file tree interest
    (List.range' (id + 1) (tree.size - (id + 1))) left
  refine ⟨g, own, rest ++ last, ?_, ?_, hownCalls, ?_⟩
  · rw [hlast, hrest, hown, List.append_assoc (g.log ++ own)]
  · rw [hearly, hfirst]
    intro e he
    rcases List.mem_append.1 he with he | he
    · have hlt := (List.mem_range'_1.1 (hfirstCalls e he)).2
      exact .inl (by simpa using hlt)
    · exact .inr (hearlyCalls e he)
  · intro e he
    rcases List.mem_append.1 he with he | he
    · exact .inr (hrestCalls e he)
    · exact .inl (List.mem_range'_1.1 (hlastCalls e he)).1

/-- Calls of other callbacks at a node are not this callback's. -/
theorem Call.IsAt.ne {c : Call} {id : Nat} {subscribers : List Subscriber} {s : Subscriber}
    (h : c.IsAt id subscribers) (hother : ∀ t ∈ subscribers, ¬ t.SameCall s) :
    c ≠ ⟨id, s.position, s.subscription.slot⟩ := by
  rintro rfl
  obtain ⟨-, t, ht, hposition, hslot⟩ := h
  exact hother t ht ⟨hposition.symm, hslot.symm⟩

/-- A call before the turn of a callback is not that of the callback. -/
theorem Call.Precedes.ne {c : Call} {id : Nat} {before : List Subscriber} {s : Subscriber}
    (h : c.Precedes id before) (hbefore : ∀ t ∈ before, ¬ t.SameCall s) :
    c ≠ ⟨id, s.position, s.subscription.slot⟩ := by
  rcases h with hearlier | hat
  · rintro rfl
    exact Nat.lt_irrefl id hearlier
  · exact hat.ne hbefore

/-- Nor is a call after the turn. -/
theorem Call.Succeeds.ne {c : Call} {id : Nat} {after : List Subscriber} {s : Subscriber}
    (h : c.Succeeds id after) (hafter : ∀ t ∈ after, ¬ s.SameCall t) :
    c ≠ ⟨id, s.position, s.subscription.slot⟩ := by
  rcases h with hlater | hat
  · rintro rfl
    exact Nat.lt_irrefl id hlater
  · exact hat.ne fun t ht hsame => hafter t ht ⟨hsame.1.symm, hsame.2.symm⟩

/-- No call comes both before and after the turn of a callback, since callbacks for one kind differ
in rule or slot. -/
theorem Call.Succeeds.not_precedes {c : Call} {id : Nat} {before after : List Subscriber}
    (h : c.Succeeds id after) (hdistinct : ∀ t ∈ before, ∀ u ∈ after, ¬ t.SameCall u) :
    ¬ c.Precedes id before := by
  rintro (hearlier | ⟨hid, t, ht, htposition, htslot⟩)
  · rcases h with hlater | hat
    · exact Nat.lt_asymm hlater hearlier
    · exact Nat.ne_of_lt hearlier hat.1
  · rcases h with hlater | ⟨-, u, hu, huposition, huslot⟩
    · exact Nat.ne_of_gt hlater hid
    · exact hdistinct t ht u hu ⟨htposition.symm.trans huposition, htslot.symm.trans huslot⟩

namespace Trace.Around

variable {tree : SyntaxTree} {id : Nat} {before after : List Subscriber} {s : Subscriber}
  {final g : Trace} {own late : List LoggedCall}

/-- A call in the log that precedes the turn was there when the turn came. It is not the callback's
own, and no later call is at an earlier node or of an earlier callback at the same node. -/
theorem mem_early (h : Around tree id before s after g own late final.log)
    (hdistinct : (before ++ s :: after).Pairwise fun t u => ¬ t.SameCall u) {e : LoggedCall}
    (he : e ∈ final.log) (hprecedes : e.call.Precedes id before) : e ∈ g.log := by
  rw [List.pairwise_append] at hdistinct
  obtain ⟨-, -, hbefore⟩ := hdistinct
  rw [h.split, List.mem_append, List.mem_append] at he
  rcases he with (he | he) | he
  · exact he
  · -- The turn's own call does not precede the turn.
    have hcall : e.call ∈ own.map (·.call) := List.mem_map_of_mem he
    rw [h.turn] at hcall
    split at hcall
    · cases hcall
    · exact absurd (List.mem_singleton.1 hcall)
        (hprecedes.ne fun t ht => hbefore t ht s (by simp))
  · exact absurd hprecedes
      ((h.late e he).not_precedes fun t ht u hu => hbefore t ht u (by simp [hu]))

/-- What the final log says about the turn is what the log said when the turn came. Skips above the
node are made at smaller positions, so they come before the turn as well. -/
theorem outAt_iff (h : Around tree id before s after g own late final.log)
    (hdistinct : (before ++ s :: after).Pairwise fun t u => ¬ t.SameCall u) {chain : List NodeId}
    (hchain : tree.ancestors? id = some chain) (hmem : ∀ a : Nat, a ∈ chain ↔ tree.Below a id) :
    final.OutAt tree id before s.position ↔ g.hushed tree id s.position = true := by
  have hancestor : ∀ a : Nat,
      (∃ chain, tree.ancestors? id = some chain ∧ a ∈ chain) ↔ tree.Below a id := by
    intro a
    rw [hchain, ← hmem a]
    simp
  simp only [OutAt, hancestor, hushed_iff]
  constructor
  · -- An entry that counts for the turn was written before it, for either reason.
    rintro ⟨e, he, hposition, ⟨hskips, hbelow⟩ | ⟨hsilences, hprecedes⟩⟩
    · exact ⟨e, h.mem_early hdistinct he (.inl hbelow.1), hposition, .inr ⟨hskips, hbelow⟩⟩
    · exact ⟨e, h.mem_early hdistinct he hprecedes, hposition, .inl hsilences⟩
  · rintro ⟨e, he, hposition, hreason⟩
    have hfinal : e ∈ final.log := by
      rw [h.split]
      simp [he]
    rcases hreason with hsilences | hskips
    · exact ⟨e, hfinal, hposition, .inr ⟨hsilences, h.early e he⟩⟩
    · exact ⟨e, hfinal, hposition, .inl hskips⟩

/-- The callback is called in its turn and at no other time, because no other call has its node, its
rule and its slot. -/
theorem count_eq (h : Around tree id before s after g own late final.log)
    (hdistinct : (before ++ s :: after).Pairwise fun t u => ¬ t.SameCall u) :
    (final.log.map (·.call)).count ⟨id, s.position, s.subscription.slot⟩ =
      if g.hushed tree id s.position then 0 else 1 := by
  rw [List.pairwise_append, List.pairwise_cons] at hdistinct
  obtain ⟨-, ⟨hafter, -⟩, hbefore⟩ := hdistinct
  have hearly : (g.log.map (·.call)).count ⟨id, s.position, s.subscription.slot⟩ = 0 := by
    rw [List.count_eq_zero, List.mem_map]
    rintro ⟨e, he, hcall⟩
    exact (h.early e he).ne (fun t ht => hbefore t ht s (by simp)) hcall
  have hlate : (late.map (·.call)).count ⟨id, s.position, s.subscription.slot⟩ = 0 := by
    rw [List.count_eq_zero, List.mem_map]
    rintro ⟨e, he, hcall⟩
    exact (h.late e he).ne hafter hcall
  rw [h.split, List.map_append, List.map_append, List.count_append, List.count_append, hearly,
    hlate, h.turn, Nat.zero_add, Nat.add_zero]
  split
  · exact List.count_nil
  · exact List.count_singleton_self

end Trace.Around

/-! ### The walk and the traversal -/

/-- The walk has done what the traversal does, and each callback was called as often as it should:
`once` is about the callback `s` that stands behind `before` among those for the kind of a node. -/
structure WalkState.Follows (tree : SyntaxTree) (interest : Interest) (w : WalkState) (g : Trace) :
    Prop where
  calls : w.calls = g.log.map (·.call)
  invocations : w.stats.invocations = g.log.length
  reporter : w.reporter = g.reporter
  once : ∀ (id : NodeId) (node : SyntaxNode) (before after : List Subscriber) (s : Subscriber),
    tree.node? id = some node → interest.subscribersOf node.kind = before ++ s :: after →
      (g.OutAt tree id before s.position →
        w.calls.count ⟨id, s.position, s.subscription.slot⟩ = 0) ∧
      (¬ g.OutAt tree id before s.position →
        w.calls.count ⟨id, s.position, s.subscription.slot⟩ = 1)

/-- On a valid tree, with the rules of a catalog, the walk makes the calls of the recursive
traversal, all of them and in the same order. The walk goes over the arena from front to back and
keeps a state for each rule, while the traversal follows the child lists and reads every decision
off its log. -/
theorem walk_follows_traverse {rules : List Rule} {catalog : Catalog} {tree : SyntaxTree}
    {length : Nat} (hcatalog : Catalog.build rules = .ok catalog)
    (hvalid : tree.validate length = .ok ()) (config : Config) (category : FileCategory)
    (file : SourceFile) :
    (walk file tree (Interest.build catalog config category)).Follows tree
      (Interest.build catalog config category)
      (traverse file tree (Interest.build catalog config category)) := by
  obtain ⟨hrules, -, rfl⟩ := Catalog.build_eq_ok_iff.1 hcatalog
  have hsound : ∀ active ∈ (Interest.build ⟨rules⟩ config category).rules, active.rule.Sound :=
    fun active hactive => hrules active.rule (Interest.mem_rules_of_mem_build hactive)
  -- Nothing else is needed of the catalog than that its rules are sound.
  generalize Interest.build ⟨rules⟩ config category = interest at hsound ⊢
  have hancestors := fun {id} => @SyntaxTree.mem_ancestors_iff tree length id hvalid
  obtain ⟨t, rfl⟩ := SyntaxTree.eq_arena_of_validate hvalid
  rw [traverse_eq_scan]
  obtain ⟨last, hagrees⟩ := agrees_walk file interest t
  refine ⟨hagrees.calls, ?_, hagrees.reporter, ?_⟩
  · show (walk file t.arena interest).calls.length = _
    rw [hagrees.calls, List.length_map]
  · -- The scan is looked at around this one turn.
    intro id node before after s hnode hsubscribers
    obtain ⟨chain, hchain, hmem⟩ := hancestors (SyntaxTree.lt_size_of_node? hnode)
    obtain ⟨g, own, late, haround⟩ :=
      @scan_around file t.arena interest id node before after s hnode hsubscribers
    have hdistinct := hsubscribers ▸ Interest.pairwise_subscribersOf hsound node.kind
    rw [hagrees.calls, haround.count_eq hdistinct, haround.outAt_iff hdistinct hchain hmem]
    exact ⟨fun hhushed => if_pos hhushed, fun hhushed => if_neg hhushed⟩

/-- Skips below every function, with a second callback behind the one that skips. -/
def skippingRule : Rule where
  descriptor := { code := "S1", name := "skipping", message := "skipped" }
  subscriptions := [⟨.function, "first", fun _ => .finish .skipChildren⟩,
    ⟨.function, "second", fun _ => .finish .proceed⟩]

/-- Fails at the first function, with a second callback behind the one that fails. -/
def failingRule : Rule where
  descriptor := { code := "F1", name := "failing", message := "failed" }
  subscriptions := [⟨.function, "first", fun _ => .fail (.error "no")⟩,
    ⟨.function, "second", fun _ => .finish .proceed⟩]

/-- A file without text. -/
def emptyFile : SourceFile := ⟨"", .source, "", ⟨"", [0]⟩⟩

/-- A function inside a function. -/
def nestedFunctions : SyntaxTree where
  nodes := #[{ kind := .file, range := ⟨0, 0⟩, children := [1] },
    { kind := .function, range := ⟨0, 0⟩, parent := some 0, children := [2] },
    { kind := .function, range := ⟨0, 0⟩, parent := some 1 }]

/-- A rule that skips still has its other callback called at the node, a rule that fails does not,
and neither is called below. -/
theorem walk_follows_traverse_nested :
    Catalog.build [skippingRule, failingRule] = .ok ⟨[skippingRule, failingRule]⟩ ∧
      nestedFunctions.validate 0 = .ok () ∧
      (walk emptyFile nestedFunctions
        (Interest.build ⟨[skippingRule, failingRule]⟩ {} .source)).Follows nestedFunctions
        (Interest.build ⟨[skippingRule, failingRule]⟩ {} .source)
        (traverse emptyFile nestedFunctions
          (Interest.build ⟨[skippingRule, failingRule]⟩ {} .source)) ∧
      (walk emptyFile nestedFunctions
        (Interest.build ⟨[skippingRule, failingRule]⟩ {} .source)).calls =
        [⟨1, 0, "first"⟩, ⟨1, 0, "second"⟩, ⟨1, 1, "first"⟩] := by
  have hcatalog : Catalog.build [skippingRule, failingRule] =
      .ok ⟨[skippingRule, failingRule]⟩ := by rfl
  have hvalid : nestedFunctions.validate 0 = .ok () := by rfl
  exact ⟨hcatalog, hvalid, walk_follows_traverse hcatalog hvalid {} .source emptyFile, by decide⟩

end Arborist
