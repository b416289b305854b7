import Arborist.Proofs.Tree.Navigation
import Mathlib.Data.List.Chain
import Mathlib.Logic.Relation

/-!
# `Arborist.Proofs.Tree.Descent`: three ways through a valid tree

A tree can be walked along its child lists, along last children only, and along parent links. On a
valid tree the three agree about what lies below a node: `navigation_agrees` says that the child
lists lead to exactly the positions up to the end that the last children lead to, and that the
parent links lead back from each of them and from no other.

`Lists` is one step along a child list. `RunsTo` is the walk to the last child again and again,
without a bound on its steps, so it holds only of a walk that ends and never leaves the arena.
-/

set_option autoImplicit false

namespace Arborist

open OrderedTree (roots sizeAll StoredAllAt sizeAll_nil sizeAll_cons size_node roots_cons
  storedAllAt_cons storedAt_node storedAllAt_singleton mem_roots_bounds places_of_lt)

namespace SyntaxTree

/-- The node at `parent` has `child` in its child list. -/
def Lists (tree : SyntaxTree) (parent child : NodeId) : Prop :=
  ∃ node, tree.node? parent = some node ∧ child ∈ node.children

/-- Going from a node to its last child again and again ends at `last`, which has no children. -/
inductive RunsTo (tree : SyntaxTree) : (id last : NodeId) → Prop
  | done {id : NodeId} {node : SyntaxNode} (hnode : tree.node? id = some node)
      (hleaf : node.children.getLast? = none) : RunsTo tree id id
  | step {id child last : NodeId} {node : SyntaxNode} (hnode : tree.node? id = some node)
      (hchild : node.children.getLast? = some child) (hrest : RunsTo tree child last) :
      RunsTo tree id last

/-- The bounded walk along last children is the unbounded one, if it succeeds before its steps are
used up. -/
theorem runsTo_of_lastDescendant? {tree : SyntaxTree} {steps : Nat} {id last : NodeId}
    (h : tree.lastDescendant? steps id = some last) : tree.RunsTo id last := by
  induction steps generalizing id with
  | zero => cases h
  | succ steps ih =>
      obtain ⟨node, hnode, h⟩ := Option.bind_eq_some_iff.1 h
      cases hchild : node.children.getLast? with
      | none =>
          rw [hchild] at h
          cases h
          exact .done hnode hchild
      | some child =>
          rw [hchild] at h
          exact .step hnode hchild (ih h)

end SyntaxTree

namespace OrderedTree

open SyntaxTree

/-- From the roots of a stored forest, the child lists lead to every node of it. A node below the
first root is reached from one of its children, and with one step more from the root. -/
theorem StoredAllAt.exists_root_reaches {tree : SyntaxTree} {first id : Nat}
    {ts : List OrderedTree} (h : StoredAllAt tree first ts) (hfirst : first ≤ id)
    (hlast : id < first + sizeAll ts) :
    ∃ root ∈ roots first ts, Relation.ReflTransGen tree.Lists root id := by
  have hplace := places_of_lt hfirst hlast
  clear hfirst hlast
  induction hplace with
  | root kind range name children ts first => exact ⟨first, by simp, .refl⟩
  | @under kind range name children ts first id hplace ih =>
      obtain ⟨⟨parent, hnode⟩, hchildren⟩ := storedAt_node.1 (storedAllAt_cons.1 h).1
      obtain ⟨child, hchild, hreaches⟩ := ih hchildren
      exact ⟨first, by simp, hreaches.head ⟨_, hnode, hchild⟩⟩
  | right hplace ih =>
      obtain ⟨root, hroot, hreaches⟩ := ih (storedAllAt_cons.1 h).2
      exact ⟨root, by simp [hroot], hreaches⟩

/-- The child list of a node inside a stored tree stays inside of the tree. The node is the root of
a tree that is stored there, and this tree ends inside the other. -/
theorem StoredAt.bounds_of_lists {tree : SyntaxTree} {id parent child : Nat} {t : OrderedTree}
    (h : t.StoredAt tree id) (hfirst : id ≤ parent) (hlast : parent < id + t.size)
    (hlists : tree.Lists parent child) : id ≤ child ∧ child < id + t.size := by
  obtain ⟨u, hu, hend⟩ := (storedAllAt_singleton.2 h).exists_storedAt hfirst (by simpa using hlast)
  rw [sizeAll_cons, sizeAll_nil] at hend
  obtain ⟨node, hnode, hchild⟩ := hlists
  cases u with
  | node kind range name children =>
      obtain ⟨⟨up, hstored⟩, -⟩ := storedAt_node.1 hu
      cases hnode.symm.trans hstored
      have hbounds := mem_roots_bounds hchild
      rw [size_node] at hend
      omega

/-- From the root of a stored tree, the child lists lead to the nodes of the tree and to no others.
-/
theorem StoredAt.reaches_iff {tree : SyntaxTree} {id j : Nat} {t : OrderedTree}
    (h : t.StoredAt tree id) :
    Relation.ReflTransGen tree.Lists id j ↔ id ≤ j ∧ j < id + t.size := by
  have hpos := t.size_pos
  constructor
  · -- The induction is on the way; each step stays in the piece.
    intro hreaches
    induction hreaches with
    | refl => omega
    | tail _ hlists ih => exact h.bounds_of_lists ih.1 ih.2 hlists
  · rintro ⟨hfirst, hlast⟩
    obtain ⟨root, hroot, hreaches⟩ :=
      (storedAllAt_singleton.2 h).exists_root_reaches hfirst (by simpa using hlast)
    rw [roots_cons] at hroot
    obtain rfl : root = id := by simpa using hroot
    exact hreaches

end OrderedTree

namespace SyntaxTree

/-- On a valid tree every parent link goes to the left, so the parents of a node are ever smaller
numbers. -/
theorem descending_of_parentChain? {tree : SyntaxTree} {length steps : Nat}
    (hvalid : tree.validate length = .ok ()) {id : NodeId} {chain : List NodeId}
    (h : tree.parentChain? steps id = some chain) : (id :: chain).IsChain (· > ·) := by
  induction steps generalizing id chain with
  | zero => cases h
  | succ steps ih =>
      obtain ⟨node, hnode, h⟩ := Option.bind_eq_some_iff.1 h
      cases hparent : node.parent with
      | none =>
          rw [hparent] at h
          cases h
          exact .singleton id
      | some up =>
          rw [hparent] at h
          obtain ⟨rest, hrest, h⟩ := Option.bind_eq_some_iff.1 h
          cases h
          exact .cons_cons (parent_lt hvalid hnode hparent) (ih hrest)

/-- A decreasing list that holds zero ends there, as nothing smaller can follow. It is used for the
ancestors of a node, among which the root is. -/
theorem getLast?_of_descending {chain : List NodeId} (hchain : chain.Pairwise (· > ·))
    (hzero : 0 ∈ chain) : chain.getLast? = some 0 := by
  induction chain with
  | nil => cases hzero
  | cons a chain ih =>
      obtain ⟨habove, hrest⟩ := List.pairwise_cons.1 hchain
      rcases List.mem_cons.1 hzero with rfl | hmem
      · cases chain with
        | nil => rfl
        | cons b chain => exact absurd (habove b (by simp)) (Nat.not_lt_zero b)
      · rw [List.getLast?_cons, ih hrest hmem]
        rfl

/-- From every node, going to the last child again and again ends without leaving the arena. It ends
one position before the end of the subtree, which lies behind the node and inside the arena, and the
child lists lead to the positions from the node up to that end and to no others. The ancestors of a
node are a finite list of ever smaller numbers that ends at the root, empty for the root itself:
they are the nodes whose subtrees hold the node behind their first position. -/
theorem navigation_agrees {tree : SyntaxTree} {length : Nat}
    (hvalid : tree.validate length = .ok ()) :
    (∀ i < tree.size, ∃ stop, tree.subtreeEnd? i = some stop ∧ tree.RunsTo i (stop - 1) ∧
      i < stop ∧ stop ≤ tree.size ∧
      ∀ j, Relation.ReflTransGen tree.Lists i j ↔ i ≤ j ∧ j < stop) ∧
    ∀ j < tree.size, ∃ chain, tree.ancestors? j = some chain ∧
      (j :: chain).Pairwise (· > ·) ∧ (j = 0 → chain = []) ∧ (j ≠ 0 → chain.getLast? = some 0) ∧
      ∀ i < tree.size, ∀ stop, tree.subtreeEnd? i = some stop →
        (i ∈ chain ↔ i < j ∧ j < stop) := by
  obtain ⟨t, ht⟩ := eq_arena_of_validate hvalid
  have hstored : ∀ i < tree.size, ∃ u : OrderedTree, u.StoredAt tree i := fun i hi => by
    rw [ht] at hi ⊢
    exact exists_storedAt_arena t hi
  refine ⟨fun i hi => ?_, fun j hj => ?_⟩
  · obtain ⟨u, hu⟩ := hstored i hi
    have hpos := u.size_pos
    have hstop := subtreeEnd?_eq hu
    obtain ⟨last, hlast, hend⟩ := Option.map_eq_some_iff.1 hstop
    refine ⟨i + u.size, hstop, ?_, by omega, hu.le_size, fun j => hu.reaches_iff⟩
    rw [← hend, Nat.add_sub_cancel]
    exact runsTo_of_lastDescendant? hlast
  · obtain ⟨chain, hchain, hmem⟩ := mem_ancestors_iff hvalid hj
    have hdescending : (j :: chain).Pairwise (· > ·) :=
      List.isChain_iff_pairwise.1 (descending_of_parentChain? hvalid hchain)
    obtain ⟨hbelow, hrest⟩ := List.pairwise_cons.1 hdescending
    refine ⟨chain, hchain, hdescending, ?_, fun hne => ?_, fun i hi stop hstop => ?_⟩
    · rintro rfl
      exact List.eq_nil_iff_forall_not_mem.2 fun a ha => Nat.not_lt_zero a (hbelow a ha)
    · -- The subtree of the root is the whole arena.
      refine getLast?_of_descending hrest ((hmem 0).2 ⟨Nat.pos_of_ne_zero hne, tree.size, ?_, hj⟩)
      rw [ht, subtreeEnd?_eq t.storedAt_arena, OrderedTree.size_arena, Nat.zero_add]
    · rw [hmem, Below, hstop]
      simp

/-- A tree in which a node with several children is itself the last of its siblings. -/
def nestedCalls : SyntaxTree :=
  OrderedTree.arena <| .node .file ⟨0, 20⟩ none [
    .node .function ⟨0, 8⟩ (some "f") [.node .block ⟨6, 8⟩ none []],
    .node .function ⟨9, 20⟩ (some "g") [
      .node .block ⟨12, 20⟩ none [
        .node .call ⟨13, 16⟩ none [.node .path ⟨13, 14⟩ (some "h") []],
        .node .path ⟨18, 19⟩ (some "x") []]]]

/-- The block at 4 takes up the positions 4 to 7, and the path at 6 lies below 5, 4, 3 and 0. These
four are the only ones whose subtrees hold it. -/
theorem navigation_agrees_nested :
    nestedCalls.validate 20 = .ok () ∧
      (nestedCalls.subtreeEnd? 4 = some 8 ∧ nestedCalls.RunsTo 4 7 ∧
        ∀ j, Relation.ReflTransGen nestedCalls.Lists 4 j ↔ 4 ≤ j ∧ j < 8) ∧
      nestedCalls.ancestors? 6 = some [5, 4, 3, 0] ∧
      ∀ i < nestedCalls.size, ∀ stop, nestedCalls.subtreeEnd? i = some stop →
        (i ∈ [5, 4, 3, 0] ↔ i < 6 ∧ 6 < stop) := by
  have hvalid : nestedCalls.validate 20 = .ok () := eq_ok_of_toOption (by decide +kernel)
  have hend : nestedCalls.subtreeEnd? 4 = some 8 := by decide +kernel
  have hup : nestedCalls.ancestors? 6 = some [5, 4, 3, 0] := by decide +kernel
  obtain ⟨hdown, hchains⟩ := navigation_agrees hvalid
  obtain ⟨stop, hstop, hruns, -, -, hreaches⟩ := hdown 4 (by decide +kernel)
  -- The results of the theorem are those computed here.
  obtain rfl : stop = 8 := Option.some.inj (hstop.symm.trans hend)
  obtain ⟨chain, hchain, -, -, -, hmem⟩ := hchains 6 (by decide +kernel)
  obtain rfl : chain = [5, 4, 3, 0] := Option.some.inj (hchain.symm.trans hup)
  exact ⟨hvalid, ⟨hend, hruns, hreaches⟩, hup, hmem⟩

end SyntaxTree

end Arborist
