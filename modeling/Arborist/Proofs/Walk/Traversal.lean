import Arborist.Proofs.Tree.Navigation
import Arborist.Proofs.Walk.Call

/-!
# `Arborist.Proofs.Walk.Traversal`: the recursive traversal

`traverse` is the walk as one would explain it. It visits a node and then, from left to right, what
lies below each of its children. A rule that skips at a node is not called below it, and a rule that
stops or fails is not called again. The log keeps each call with how it ended, and everything that
decides on a call is read off the log.

The traversal keeps the skips of the ancestors in a list that it hands down. `scan` has no such
list: it goes through the positions of the arena and looks in the whole log for a skip whose subtree
holds the node. On the arena of a tree the two are the same (`traverse_eq_scan`). The reason is
`Trace.MutedAt`: the list handed down names exactly the rules with a skip above, and calls in one
subtree never add a skip above another.
-/

set_option autoImplicit false

namespace Arborist

open OrderedTree (roots sizeAll StoredAllAt forest_induction sizeAll_nil sizeAll_cons size_node
  roots_cons storedAllAt_cons storedAt_node)

/-- A call at a node, of one of the given callbacks. -/
def Call.IsAt (c : Call) (id : NodeId) (subscribers : List Subscriber) : Prop :=
  c.node = id ∧ ∃ s ∈ subscribers, c.position = s.position ∧ c.slot = s.subscription.slot

/-- A call and how it ended. -/
structure LoggedCall where
  call : Call
  outcome : Except Failure Visit

namespace LoggedCall

/-- The rule is not to be called again. -/
def silences (e : LoggedCall) : Bool :=
  match e.outcome with
  | .ok .stop => true
  | .error _ => true
  | _ => false

/-- The rule is not to be called below the node. -/
def skips (e : LoggedCall) : Bool :=
  match e.outcome with
  | .ok .skipChildren => true
  | _ => false

/-- The call keeps its rule from being called at `id`: it silenced the rule, or it skipped at a node
whose subtree holds `id`. -/
def mutes (tree : SyntaxTree) (e : LoggedCall) (id : NodeId) : Bool :=
  e.silences ||
    (e.skips && (e.call.node < id && id < (tree.subtreeEnd? e.call.node).getD 0))

end LoggedCall

/-- A call mutes its rule for good, or below the node where it skipped. A node without an end of its
subtree has nothing below it. -/
theorem LoggedCall.mutes_iff {tree : SyntaxTree} {e : LoggedCall} {id : Nat} :
    e.mutes tree id = true ↔
      e.silences = true ∨ (e.skips = true ∧ tree.Below e.call.node id) := by
  have hbelow : (e.call.node < id ∧ id < (tree.subtreeEnd? e.call.node).getD 0) ↔
      tree.Below e.call.node id := by
    unfold SyntaxTree.Below
    cases tree.subtreeEnd? e.call.node <;> simp
  simp only [mutes, Bool.or_eq_true, Bool.and_eq_true, decide_eq_true_eq, hbelow]

/-- The reports and the calls so far. -/
structure Trace where
  reporter : Reporter := {}
  log : List LoggedCall := []

namespace Trace

/-- Calls one callback at a node. -/
def invoke (file : SourceFile) (tree : SyntaxTree) (id : NodeId) (node : SyntaxNode) (g : Trace)
    (s : Subscriber) : Trace :=
  let (reporter, outcome) := s.react file tree id node g.reporter
  ⟨reporter, g.log ++ [⟨⟨id, s.position, s.subscription.slot⟩, outcome⟩]⟩

/-- The rule has stopped or failed. -/
def silenced (g : Trace) (position : Nat) : Bool :=
  g.log.any fun e => e.call.position = position && e.silences

/-- The rules that skip what lies below a node. -/
def skippedAt (g : Trace) (id : NodeId) : List Nat :=
  (g.log.filter fun e => e.call.node = id && e.skips).map (·.call.position)

/-- Calls the callbacks for a node whose rules are neither muted nor silenced. -/
def dispatch (file : SourceFile) (tree : SyntaxTree) (interest : Interest) (muted : List Nat)
    (id : NodeId) (node : SyntaxNode) (g : Trace) : Trace :=
  (interest.subscribersOf node.kind).foldl (fun g s =>
    if s.position ∈ muted || g.silenced s.position then g else g.invoke file tree id node s) g

/-- Visits a node and then its children with all that lies below them; at most `depth` levels. The
rules in `muted` have skipped above. -/
def descend (file : SourceFile) (tree : SyntaxTree) (interest : Interest) :
    (depth : Nat) → (muted : List Nat) → NodeId → Trace → Trace
  | 0, _, _, g => g
  | depth + 1, muted, id, g =>
    match tree.node? id with
    | none => g
    | some node =>
      let visited := g.dispatch file tree interest muted id node
      node.children.foldl
        (fun g child =>
          descend file tree interest depth (muted ++ visited.skippedAt id) child g) visited

/-- The rule is not called at a node: one of its calls so far speaks against it. -/
def hushed (tree : SyntaxTree) (g : Trace) (id : NodeId) (position : Nat) : Bool :=
  g.log.any fun e => e.call.position = position && e.mutes tree id

/-- Calls a callback at a node, unless the log speaks against it. -/
def turn (file : SourceFile) (tree : SyntaxTree) (id : NodeId) (node : SyntaxNode) (g : Trace)
    (s : Subscriber) : Trace :=
  if g.hushed tree id s.position then g else g.invoke file tree id node s

/-- Gives each of the callbacks its turn at a node. -/
def offer (file : SourceFile) (tree : SyntaxTree) (id : NodeId) (node : SyntaxNode)
    (subscribers : List Subscriber) (g : Trace) : Trace :=
  subscribers.foldl (turn file tree id node) g

/-- Visits the node at a position of the arena. -/
def scanNode (file : SourceFile) (tree : SyntaxTree) (interest : Interest) (g : Trace)
    (id : NodeId) : Trace :=
  match tree.node? id with
  | none => g
  | some node => g.offer file tree id node (interest.subscribersOf node.kind)

end Trace

/-- The recursive pre-order traversal from the root. No tree has more levels than nodes. -/
def traverse (file : SourceFile) (tree : SyntaxTree) (interest : Interest) : Trace :=
  Trace.descend file tree interest tree.size [] 0 {}

/-- The scan of the arena from front to back, with every decision read off the log. -/
def scan (file : SourceFile) (tree : SyntaxTree) (interest : Interest) : Trace :=
  (List.range' 0 tree.size).foldl (Trace.scanNode file tree interest) {}

namespace Trace

variable {file : SourceFile} {tree : SyntaxTree} {interest : Interest}

/-- A rule is silenced by a call of its own that stopped or failed. -/
theorem silenced_iff {g : Trace} {position : Nat} :
    g.silenced position = true ↔
      ∃ e ∈ g.log, e.call.position = position ∧ e.silences = true := by
  simp [silenced]

/-- The rules that skip at a node are those with a call there that did. A rule with several
callbacks for the node may be named more than once. -/
theorem mem_skippedAt {g : Trace} {id : NodeId} {position : Nat} :
    position ∈ g.skippedAt id ↔
      ∃ e ∈ g.log, e.call.position = position ∧ e.skips = true ∧ e.call.node = id := by
  simp only [skippedAt, List.mem_map, List.mem_filter, Bool.and_eq_true, decide_eq_true_eq]
  constructor
  · rintro ⟨e, ⟨hmem, hid, hskips⟩, hposition⟩
    exact ⟨e, hmem, hposition, hskips, hid⟩
  · rintro ⟨e, hmem, hposition, hskips, hid⟩
    exact ⟨e, ⟨hmem, hid, hskips⟩, hposition⟩

/-- The reasons not to call a rule at a node, as the log has them. -/
theorem hushed_iff {g : Trace} {id position : Nat} :
    g.hushed tree id position = true ↔
      ∃ e ∈ g.log, e.call.position = position ∧
        (e.silences = true ∨ (e.skips = true ∧ tree.Below e.call.node id)) := by
  simp only [hushed, List.any_eq_true, Bool.and_eq_true, decide_eq_true_eq,
    LoggedCall.mutes_iff]

/-- A call is logged with how it ended, behind the others. -/
@[simp] theorem log_invoke (id : NodeId) (node : SyntaxNode) (g : Trace) (s : Subscriber) :
    (g.invoke file tree id node s).log = g.log ++
      [⟨⟨id, s.position, s.subscription.slot⟩, (s.react file tree id node g.reporter).2⟩] := rfl

/-- A turn adds the call or nothing, and the log before it decides which. -/
theorem log_turn (id : NodeId) (node : SyntaxNode) (g : Trace) (s : Subscriber) :
    ∃ own, (g.turn file tree id node s).log = g.log ++ own ∧
      own.map (·.call) = if g.hushed tree id s.position then []
        else [⟨id, s.position, s.subscription.slot⟩] := by
  unfold turn
  split
  · exact ⟨[], by simp, rfl⟩
  · exact ⟨_, log_invoke id node g s, rfl⟩

/-- Offering a node adds calls at this node, of the callbacks offered. Not every one of them need be
called, and the log before is kept. -/
theorem log_offer (id : NodeId) (node : SyntaxNode) (subscribers : List Subscriber) (g : Trace) :
    ∃ new, (g.offer file tree id node subscribers).log = g.log ++ new ∧
      ∀ e ∈ new, e.call.IsAt id subscribers := by
  induction subscribers generalizing g with
  | nil => exact ⟨[], by simp [offer], by simp⟩
  | cons s subscribers ih =>
      obtain ⟨own, hown, hcalls⟩ := @log_turn file tree id node g s
      obtain ⟨new, hnew, hat⟩ := ih (g.turn file tree id node s)
      refine ⟨own ++ new, ?_, fun e he => ?_⟩
      · rw [offer, List.foldl_cons, ← offer, hnew, hown, List.append_assoc]
      · rcases List.mem_append.1 he with he | he
        · have hmem : e.call ∈ own.map (·.call) := List.mem_map_of_mem he
          rw [hcalls] at hmem
          split at hmem
          · cases hmem
          · rw [List.mem_singleton.1 hmem]
            exact ⟨rfl, s, by simp, rfl, rfl⟩
        · obtain ⟨hid, t, ht, hcall⟩ := hat e he
          exact ⟨hid, t, List.mem_cons_of_mem _ ht, hcall⟩

/-- Scanning the position of a node is offering the node to the callbacks for its kind. -/
theorem scanNode_eq {id : NodeId} {node : SyntaxNode} (h : tree.node? id = some node)
    (g : Trace) : g.scanNode file tree interest id =
      g.offer file tree id node (interest.subscribersOf node.kind) := by
  rw [scanNode, h]

/-- Scanning positions adds calls at these positions. A position outside the arena adds none. -/
theorem log_scanNodes (ids : List NodeId) (g : Trace) :
    ∃ new, (ids.foldl (scanNode file tree interest) g).log = g.log ++ new ∧
      ∀ e ∈ new, e.call.node ∈ ids := by
  induction ids generalizing g with
  | nil => exact ⟨[], by simp, by simp⟩
  | cons id ids ih =>
      rw [List.foldl_cons]
      obtain ⟨new, hlog, hnew⟩ := ih (scanNode file tree interest g id)
      -- What the first position adds, if it is in the arena.
      obtain ⟨first, hfirst, hid⟩ :
          ∃ first, (scanNode file tree interest g id).log = g.log ++ first ∧
            ∀ e ∈ first, e.call.node = id := by
        rw [scanNode]
        split
        · exact ⟨[], by simp, by simp⟩
        · obtain ⟨first, hlog, hcalls⟩ := log_offer id _ _ g
          exact ⟨first, hlog, fun e he => (hcalls e he).1⟩
      refine ⟨first ++ new, by rw [hlog, hfirst, List.append_assoc], fun e he => ?_⟩
      rcases List.mem_append.1 he with he | he
      · rw [hid e he]
        simp
      · simp [hnew e he]

/-! ### The list handed down -/

/-- The list names the rules that have skipped at a node whose subtree holds `id`. -/
def MutedAt (tree : SyntaxTree) (g : Trace) (muted : List Nat) (id : Nat) : Prop :=
  ∀ position, position ∈ muted ↔
    ∃ e ∈ g.log, e.call.position = position ∧ e.skips = true ∧ tree.Below e.call.node id

/-- Calls at nodes whose subtrees do not hold `id` make no difference at `id`. So a list that was
right before them is right after them. -/
theorem MutedAt.of_log_eq_append {g g' : Trace} {muted : List Nat} {id : Nat}
    {new : List LoggedCall} (h : g.MutedAt tree muted id) (hlog : g'.log = g.log ++ new)
    (hnew : ∀ e ∈ new, ¬ tree.Below e.call.node id) : g'.MutedAt tree muted id := by
  intro position
  rw [h position, hlog]
  constructor
  · rintro ⟨e, he, hrest⟩
    exact ⟨e, List.mem_append_left _ he, hrest⟩
  · rintro ⟨e, he, hposition, hskips, hbelow⟩
    rcases List.mem_append.1 he with he | he
    · exact ⟨e, he, hposition, hskips, hbelow⟩
    · exact absurd hbelow (hnew e he)

/-- With the right list, looking at the list and at the log comes to the same: the list stands for
the skips above the node, and whether a rule was silenced is read off the log in both. -/
theorem MutedAt.hushed_eq {g : Trace} {muted : List Nat} {id : Nat}
    (h : g.MutedAt tree muted id) (position : Nat) :
    (position ∈ muted || g.silenced position) = g.hushed tree id position := by
  rw [Bool.eq_iff_iff, Bool.or_eq_true, decide_eq_true_eq, h position, silenced_iff, hushed_iff]
  constructor
  · rintro (⟨e, he, hposition, hskips⟩ | ⟨e, he, hposition, hsilences⟩)
    · exact ⟨e, he, hposition, .inr hskips⟩
    · exact ⟨e, he, hposition, .inl hsilences⟩
  · rintro ⟨e, he, hposition, hsilences | hskips⟩
    · exact .inr ⟨e, he, hposition, hsilences⟩
    · exact .inl ⟨e, he, hposition, hskips⟩

/-- A node does not lie below itself, so a skip does not count at the node where it was made. -/
theorem not_below_self {id : Nat} : ¬ tree.Below id id := fun h => Nat.lt_irrefl id h.1

/-- Calls at a node make no difference for the other callbacks at the node. So the list, which is
not changed while a node is visited, stays right for all of them. -/
theorem dispatch_eq_offer {g : Trace} {muted : List Nat} {id : Nat} (node : SyntaxNode)
    (h : g.MutedAt tree muted id) :
    g.dispatch file tree interest muted id node =
      g.offer file tree id node (interest.subscribersOf node.kind) := by
  rw [dispatch, offer]
  generalize interest.subscribersOf node.kind = subscribers
  induction subscribers generalizing g with
  | nil => rfl
  | cons s subscribers ih =>
      rw [List.foldl_cons, List.foldl_cons, h.hushed_eq, turn]
      split
      · exact ih h
      · refine ih (h.of_log_eq_append (log_invoke id node g s) fun e he => ?_)
        rw [List.mem_singleton.1 he]
        exact not_below_self

/-- Below a node that was visited, the list grows by the rules that skipped there. The other calls
that the log has are older, and the list is right about them already. -/
theorem MutedAt.below {g g' : Trace} {muted : List Nat} {id root : Nat} {new : List LoggedCall}
    (h : g.MutedAt tree muted id) (hlog : g'.log = g.log ++ new)
    (hnew : ∀ e ∈ new, e.call.node = root) (hbelow : tree.Below root id) :
    g'.MutedAt tree (muted ++ g'.skippedAt root) id := by
  intro position
  rw [List.mem_append, h position, mem_skippedAt, hlog]
  constructor
  · rintro (⟨e, he, hrest⟩ | ⟨e, he, hposition, hskips, hroot⟩)
    · exact ⟨e, List.mem_append_left _ he, hrest⟩
    · exact ⟨e, he, hposition, hskips, by rw [hroot]; exact hbelow⟩
  · rintro ⟨e, he, hposition, hskips, hid⟩
    rcases List.mem_append.1 he with hold | hcalled
    · exact .inl ⟨e, hold, hposition, hskips, hid⟩
    · exact .inr ⟨e, he, hposition, hskips, hnew e hcalled⟩

/-- Visiting the trees of a stored forest one after the other is scanning the positions that it
takes up. The list handed down has to be right at each of these positions before; calls inside one
tree keep it right for the trees behind. -/
theorem descend_roots_eq {first depth : Nat} {ts : List OrderedTree} {muted : List Nat} {g : Trace}
    (hstored : StoredAllAt tree first ts) (hdepth : sizeAll ts ≤ depth)
    (hmuted : ∀ id, first ≤ id → id < first + sizeAll ts → g.MutedAt tree muted id) :
    (roots first ts).foldl (fun g root => descend file tree interest depth muted root g) g =
      (List.range' first (sizeAll ts)).foldl (scanNode file tree interest) g := by
  induction ts using forest_induction generalizing first depth muted g with
  | nil => rfl
  | cons kind range name children ts ihc ihr =>
      rw [sizeAll_cons, size_node] at hdepth hmuted ⊢
      have htree := (storedAllAt_cons.1 hstored).1
      rw [storedAllAt_cons, storedAt_node, size_node] at hstored
      obtain ⟨⟨⟨parent, hnode⟩, hchildren⟩, hts⟩ := hstored
      obtain ⟨depth, rfl⟩ : ∃ n, depth = n + 1 := ⟨depth - 1, by omega⟩
      -- Visiting the first node is scanning its position.
      have hfirst := hmuted first (Nat.le_refl _) (by omega)
      have hvisit : g.dispatch file tree interest muted first
            { kind, range, parent, children := roots (first + 1) children, name } =
          scanNode file tree interest g first := by
        rw [dispatch_eq_offer _ hfirst, scanNode_eq hnode]
      obtain ⟨called, hcalled, hat⟩ : ∃ called,
          (scanNode file tree interest g first).log = g.log ++ called ∧
            ∀ e ∈ called, e.call.node = first := by
        obtain ⟨called, hlog, hmem⟩ := log_scanNodes [first] g
        exact ⟨called, hlog, fun e he => List.mem_singleton.1 (hmem e he)⟩
      -- Below it, the list has grown by the rules that skipped there.
      have hbelow : ∀ id, first + 1 ≤ id → id < first + 1 + sizeAll children →
          (scanNode file tree interest g first).MutedAt tree
            (muted ++ (scanNode file tree interest g first).skippedAt first) id := by
        intro id hlow hhigh
        refine (hmuted id (by omega) (by omega)).below hcalled hat ?_
        rw [SyntaxTree.below_iff htree, size_node]
        omega
      have hdescend : descend file tree interest (depth + 1) muted first g =
          (List.range' first (sizeAll children + 1)).foldl (scanNode file tree interest) g := by
        rw [descend, hnode]
        simp only [hvisit]
        rw [ihc hchildren (by omega) hbelow, List.range'_succ, List.foldl_cons]
      -- To the right, nothing of this counts: no subtree from here reaches so far.
      have hright : ∀ id, first + (sizeAll children + 1) ≤ id →
          id < first + (sizeAll children + 1) + sizeAll ts →
          (descend file tree interest (depth + 1) muted first g).MutedAt tree muted id := by
        intro id hlow hhigh
        obtain ⟨new, hlog, hmem⟩ := @log_scanNodes file tree interest
          (List.range' first (sizeAll children + 1)) g
        rw [hdescend]
        refine (hmuted id (by omega) (by omega)).of_log_eq_append hlog fun e he hin => ?_
        obtain ⟨hge, hlt⟩ := List.mem_range'_1.1 (hmem e he)
        obtain ⟨u, hu, hend⟩ := (OrderedTree.storedAllAt_singleton.2 htree).exists_storedAt hge
          (by simpa using hlt)
        rw [sizeAll_cons, sizeAll_nil, size_node] at hend
        rw [SyntaxTree.below_iff hu] at hin
        omega
      rw [roots_cons, List.foldl_cons, size_node, ihr hts (by omega) hright, hdescend,
        ← List.foldl_append, List.range'_append_1]

end Trace

/-- On the arena of a tree, the traversal is the scan. At the root nothing was logged, so the empty
list is the right one to begin with. -/
theorem traverse_eq_scan (file : SourceFile) (interest : Interest) (t : OrderedTree) :
    traverse file t.arena interest = scan file t.arena interest := by
  have hstored := OrderedTree.storedAllAt_singleton.2 t.storedAt_arena
  have hsize : sizeAll [t] = t.arena.size := by simp
  have h := @Trace.descend_roots_eq file t.arena interest 0 t.arena.size [t] [] {} hstored
    (Nat.le_of_eq hsize) fun id _ _ position => by simp
  rw [hsize] at h
  exact h

end Arborist
