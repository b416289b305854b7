import Arborist.Proofs.Tree.Ordered
import Arborist.Tree.Validate

/-!
# `Arborist.Proofs.Tree.Validate`: what the validation accepts

`validate_ok_iff_preorder` is the main result: an arena is accepted exactly if it is the pre-order
numbering of an ordered tree whose ranges fit the source.

Both directions go along the walk of `checkOrder`. Its stack holds the roots of a forest that is
still to be visited: the pending siblings of the node just visited and of all its ancestors, which
together are what is left of the arena. `forest_of_checkOrder` finds this forest from a walk that
succeeds, node by node from the back. `checkOrder_numberedAll` says that the walk over a numbered
forest succeeds and leaves the rest of the stack for the rest of the arena.

The walk takes the node on top of the stack from the front of what is left of the arena.
`orderScan?` reads it at its own number instead, which is outside the arena if a child link was, and
`orderScan?_eq` says that this never happens once the child lists were checked.

What the validation objects to when it fails is split once, check by check (`of_validate_eq_error`).
In the numbering of a forest only ranges are left to object to, and a second tree that is never
reached (`of_validate_forestArena`).
-/

set_option autoImplicit false

namespace Arborist

/-- A value that can be compared stands for a result that cannot. -/
theorem eq_ok_of_toOption {ε α : Type} {result : Except ε α} {value : α}
    (h : result.toOption = some value) : result = .ok value := by
  cases result with
  | error error => cases h
  | ok found => exact congrArg _ (Option.some.inj h)

open OrderedTree (roots sizeAll numberedAll StoredAllAt forest_induction length_roots roots_append
  sizeAll_append sizeAll_nil sizeAll_cons size_node roots_cons numberedAll_cons numbered_node
  storedAllAt_nil storedAllAt_cons storedAllAt_append storedAt_node)

namespace SyntaxTree

/-- The ranges of an arena fit a source of `length` bytes. -/
structure FitsSource (tree : SyntaxTree) (length : Nat) : Prop where
  ordered : ∀ node ∈ tree.nodes, node.range.start ≤ node.range.stop
  bounded : ∀ node ∈ tree.nodes, node.range.stop ≤ length
  /-- A child lies inside its parent. -/
  nested : ∀ node ∈ tree.nodes, ∀ child ∈ node.children, ∀ childNode,
    tree.node? child = some childNode → node.range.contains childNode.range = true
  /-- Start offsets never decrease along the arena. -/
  starts : tree.nodes.toList.Pairwise fun a b => a.range.start ≤ b.range.start

/-! ### The nodes one by one -/

/-- A check of all elements succeeds if the check of each does. Whether it succeeds does not depend
on their order, only what it reports otherwise. -/
theorem forM_eq_ok_iff {α ε : Type} {f : α → Except ε Unit} {xs : List α} :
    xs.forM f = .ok () ↔ ∀ x ∈ xs, f x = .ok () := by
  induction xs with
  | nil => simp [pure, Except.pure]
  | cons x xs ih =>
      show (f x >>= fun _ => xs.forM f) = .ok () ↔ _
      rw [List.forall_mem_cons, ← ih]
      cases hx : f x with
      | error e => simp [bind, Except.bind]
      | ok u => simp [bind, Except.bind]

/-- The nodes are listed with the positions they are read at, so that a statement about every entry
is one about every position. -/
theorem mem_enumerated {tree : SyntaxTree} {id : Nat} {node : SyntaxNode} :
    (id, node) ∈ tree.enumerated ↔ tree.node? id = some node := by
  rw [node?_eq, enumerated, List.mem_map]
  constructor
  · rintro ⟨⟨node', id'⟩, hmem, heq⟩
    cases heq
    exact List.mem_zipIdx_iff_getElem?.1 hmem
  · intro hnode
    exact ⟨(node, id), List.mem_zipIdx_iff_getElem?.2 hnode, rfl⟩

/-- A node of the arena is one that can be read at some position. -/
theorem mem_nodes_iff {tree : SyntaxTree} {node : SyntaxNode} :
    node ∈ tree.nodes ↔ ∃ id : Nat, tree.node? id = some node := by
  rw [← Array.mem_toList_iff, List.mem_iff_getElem?]
  simp only [node?_eq]

/-- A child passes if it can be read, links back to its parent and lies inside it. These are the
three checks in their order. -/
theorem checkChild_eq_ok_iff {tree : SyntaxTree} {parent child : Nat} {node : SyntaxNode} :
    tree.checkChild parent node child = .ok () ↔
      ∃ childNode, tree.node? child = some childNode ∧ childNode.parent = some parent ∧
        node.range.contains childNode.range = true := by
  rw [checkChild]
  cases tree.node? child with
  | none => simp
  | some childNode =>
      by_cases hparent : childNode.parent = some parent
      · cases hinside : node.range.contains childNode.range <;> simp [hparent, hinside]
      · simp [hparent]

/-- A node passes if its range is not inverted, ends in the source, and all its children pass. Its
start is then in the source as well. -/
theorem checkNode_eq_ok_iff {tree : SyntaxTree} {length id : Nat} {node : SyntaxNode} :
    tree.checkNode length id node = .ok () ↔
      node.range.start ≤ node.range.stop ∧ node.range.stop ≤ length ∧
      ∀ child ∈ node.children, ∃ childNode, tree.node? child = some childNode ∧
        childNode.parent = some id ∧ node.range.contains childNode.range = true := by
  simp only [← checkChild_eq_ok_iff, ← forM_eq_ok_iff]
  rw [checkNode]
  split
  · -- Each of the two tests that fail contradicts one of the inequalities.
    rename_i hinverted
    simp only [reduceCtorEq, false_iff]
    omega
  · rename_i hordered
    split
    · rename_i houtside
      simp only [reduceCtorEq, false_iff]
      omega
    · rename_i hbounded
      simp only [Nat.not_lt.1 hordered, Nat.not_lt.1 hbounded, true_and]

/-- The first look at the arena succeeds if every node passes, at the position where it is read. -/
theorem checkNodes_eq_ok_iff {tree : SyntaxTree} {length : Nat} :
    (tree.enumerated.forM fun (id, node) => tree.checkNode length id node) = .ok () ↔
      ∀ (id : Nat) (node : SyntaxNode), tree.node? id = some node →
        tree.checkNode length id node = .ok () := by
  rw [forM_eq_ok_iff]
  simp only [Prod.forall, mem_enumerated]

/-! ### The walk from the root -/

/-- A walk that succeeds has come past starts that never decrease. Each is compared with the one
before only, and the order of all of them follows. -/
theorem starts_of_checkOrder {expected previous : Nat} {stack : List NodeId}
    {rest : List SyntaxNode} (h : checkOrder expected previous stack rest = .ok ()) :
    (previous :: rest.map (·.range.start)).Pairwise (· ≤ ·) := by
  fun_induction checkOrder expected previous stack rest with
  | case1 expected previous rest hempty =>
      rw [List.isEmpty_iff.1 hempty]
      exact List.pairwise_singleton _ _
  | case2 => cases h
  | case3 => cases h
  | case4 => cases h
  | case5 => cases h
  -- The only case in which the walk goes on.
  | case6 expected previous id stack node rest hid hstart ih =>
      have htail := ih h
      rw [List.map_cons]
      refine List.pairwise_cons.2 ⟨fun start hmem => ?_, htail⟩
      rcases List.mem_cons.1 hmem with rfl | hmem
      · exact Nat.not_lt.1 hstart
      · exact Nat.le_trans (Nat.not_lt.1 hstart) ((List.pairwise_cons.1 htail).1 start hmem)

/-- A walk that succeeds visits a forest: the stack holds its roots, and it fills the arena from
`expected` on. The induction is on what is left of the arena; a node takes as many trees of the
forest behind it as it has children. -/
theorem forest_of_checkOrder {tree : SyntaxTree} {expected previous : Nat} {stack : List NodeId}
    (hexpected : expected ≤ tree.size)
    (h : checkOrder expected previous stack (tree.nodes.toList.drop expected) = .ok ()) :
    ∃ ts, stack = roots expected ts ∧ expected + sizeAll ts = tree.size ∧
      StoredAllAt tree expected ts := by
  generalize hrest : tree.nodes.toList.drop expected = rest at h
  induction rest generalizing expected previous stack with
  | nil =>
      cases stack with
      | nil =>
          have hsize := List.drop_eq_nil_iff.1 hrest
          rw [← size_eq] at hsize
          exact ⟨[], rfl, by rw [sizeAll_nil]; omega, storedAllAt_nil tree expected⟩
      | cons id stack => simp [checkOrder] at h
  | cons node rest ih =>
      cases stack with
      | nil => simp [checkOrder] at h
      | cons id stack =>
          rw [checkOrder] at h
          split at h
          · cases h
          · rename_i hid
            obtain rfl : expected = id := (Decidable.not_not.1 hid).symm
            split at h
            · cases h
            · have hdrop : tree.nodes.toList.drop (expected + 1) = rest := by
                rw [← List.drop_drop, hrest, List.drop_one, List.tail_cons]
              have hnode : tree.node? expected = some node := by
                rw [node?_eq_some_iff_drop, hrest, hdrop]
              obtain ⟨ts, hstack, hsize, hstored⟩ :=
                ih (show expected + 1 ≤ tree.size from lt_size_of_node? hnode) hdrop h
              -- The first trees of the forest are the children, the others the old stack.
              obtain ⟨children, others, rfl, hchildren⟩ : ∃ children others,
                  ts = children ++ others ∧ children.length = node.children.length := by
                have hlength := congrArg List.length hstack
                rw [List.length_append, length_roots] at hlength
                exact ⟨ts.take node.children.length, ts.drop node.children.length, by simp,
                  by rw [List.length_take]; omega⟩
              rw [roots_append] at hstack
              obtain ⟨hlist, hothers⟩ := List.append_inj hstack (by rw [length_roots, hchildren])
              obtain ⟨hbelow, hright⟩ := storedAllAt_append.1 hstored
              rw [sizeAll_append] at hsize
              refine ⟨.node node.kind node.range node.name children :: others, ?_, ?_, ?_⟩
              · rw [roots_cons, size_node, hothers,
                  show expected + 1 + sizeAll children = expected + (sizeAll children + 1) by omega]
              · rw [sizeAll_cons, size_node]
                omega
              · rw [storedAllAt_cons, storedAt_node, size_node, ← hlist,
                  show expected + (sizeAll children + 1) = expected + 1 + sizeAll children by omega]
                exact ⟨⟨⟨node.parent, hnode⟩, hbelow⟩, hright⟩

/-- The walk over a numbered forest on top of the stack: if the starts never decrease, it comes
through and goes on with the rest of the stack at the rest of the arena. -/
theorem checkOrder_numberedAll (parent : Option NodeId) (first previous : Nat)
    (ts : List OrderedTree) (stack : List NodeId) (rest : List SyntaxNode)
    (hstarts : (previous :: (numberedAll parent first ts ++ rest).map (·.range.start)).Pairwise
      (· ≤ ·)) :
    ∃ last, checkOrder first previous (roots first ts ++ stack)
        (numberedAll parent first ts ++ rest) =
        checkOrder (first + sizeAll ts) last stack rest ∧
      (last :: rest.map (·.range.start)).Pairwise (· ≤ ·) := by
  induction ts using forest_induction generalizing parent first previous stack rest with
  | nil => exact ⟨previous, by simp, by simpa using hstarts⟩
  | cons kind range name children ts ihc ihr =>
      simp only [numberedAll_cons, numbered_node, size_node, roots_cons, List.cons_append,
        List.append_assoc, List.map_cons] at hstarts ⊢
      obtain ⟨hprevious, htail⟩ := List.pairwise_cons.1 hstarts
      -- First down: the children are on top of the stack, the trees to the right wait below them.
      obtain ⟨below, hbelow, hbelowStarts⟩ := ihc (some first) (first + 1) range.start
        (roots (first + (sizeAll children + 1)) ts ++ stack)
        (numberedAll parent (first + (sizeAll children + 1)) ts ++ rest) htail
      -- Then to the right, from the start that was seen last.
      obtain ⟨last, hlast, hlastStarts⟩ :=
        ihr parent (first + (sizeAll children + 1)) below stack rest hbelowStarts
      refine ⟨last, ?_, hlastStarts⟩
      have hstart : ¬ range.start < previous := Nat.not_lt.2 (hprevious _ (by simp))
      rw [checkOrder, if_neg (by simp), if_neg hstart, hbelow,
        show first + 1 + sizeAll children = first + (sizeAll children + 1) by omega, hlast,
        sizeAll_cons, size_node,
        show first + (sizeAll children + 1) + sizeAll ts =
          first + (sizeAll children + 1 + sizeAll ts) by omega]

/-- Whatever the starts are, the walk over a numbered forest comes through, or it stops because a
start decreases. -/
theorem checkOrder_numberedAll_or (parent : Option NodeId) (first previous : Nat)
    (ts : List OrderedTree) (stack : List NodeId) (rest : List SyntaxNode) :
    (∃ last, checkOrder first previous (roots first ts ++ stack)
        (numberedAll parent first ts ++ rest) =
        checkOrder (first + sizeAll ts) last stack rest) ∨
      ∃ node start before, checkOrder first previous (roots first ts ++ stack)
        (numberedAll parent first ts ++ rest) = .error (.startDecreases node start before) := by
  induction ts using forest_induction generalizing parent first previous stack rest with
  | nil => exact .inl ⟨previous, by simp⟩
  | cons kind range name children ts ihc ihr =>
      simp only [numberedAll_cons, numbered_node, size_node, roots_cons, List.cons_append,
        List.append_assoc]
      rw [checkOrder, if_neg (by simp)]
      split
      · -- The walk stops at this node.
        exact .inr ⟨_, _, _, rfl⟩
      · rcases ihc (some first) (first + 1) range.start
          (roots (first + (sizeAll children + 1)) ts ++ stack)
          (numberedAll parent (first + (sizeAll children + 1)) ts ++ rest) with
          ⟨below, hbelow⟩ | ⟨node, start, before, hstops⟩
        · rw [hbelow, show first + 1 + sizeAll children = first + (sizeAll children + 1) by omega,
            sizeAll_cons, size_node, ← Nat.add_assoc first (sizeAll children + 1)]
          exact ihr parent (first + (sizeAll children + 1)) below stack rest
        · exact .inr ⟨node, start, before, hstops⟩

/-! ### Reading the arena by number -/

/-- The walk from the root with reads by number: the node on top of the stack is read at the number
that the stack gives. `none` is a read outside the arena. Each step that goes on has read a node at
`expected`, so there are at most as many steps as nodes. -/
def orderScan? (tree : SyntaxTree) (expected previous : Nat) (stack : List NodeId) :
    Option (Except TreeError Unit) :=
  match stack with
  | [] =>
    some (if expected = tree.size then .ok () else .error (.unreachable (tree.size - expected)))
  | id :: stack =>
    if id ≠ expected then some (.error (.notPreorder expected id))
    else match _ : tree.node? id with
      | none => none
      | some node =>
        if node.range.start < previous then
          some (.error (.startDecreases id node.range.start previous))
        else tree.orderScan? (expected + 1) node.range.start (node.children ++ stack)
termination_by tree.size - expected
decreasing_by
  rename_i hid hnode _
  have hlt : expected < tree.size := Decidable.not_not.1 hid ▸ lt_size_of_node? hnode
  omega

/-- The validation with reads by number; `none` is a read outside the arena. -/
def validateScan? (tree : SyntaxTree) (length : Nat) : Option (Except TreeError Unit) :=
  match tree.node? 0 with
  | none => some (.error .empty)
  | some root =>
    if root.parent.isSome then some (.error .rootHasParent)
    else match tree.enumerated.forM fun (id, node) => tree.checkNode length id node with
      | .error error => some (.error error)
      | .ok () => tree.orderScan? 0 0 [0]

/-- As long as the stack and all child lists stay inside the arena, so do the reads, and the walk
ends as `checkOrder` does. -/
theorem orderScan?_eq {tree : SyntaxTree} (hlinked : tree.Linked) (expected previous : Nat)
    (stack : List NodeId) (hexpected : expected ≤ tree.size)
    (hstack : ∀ id ∈ stack, id < tree.size) :
    tree.orderScan? expected previous stack =
      some (checkOrder expected previous stack (tree.nodes.toList.drop expected)) := by
  fun_induction orderScan? tree expected previous stack with
  | case1 expected previous =>
      rw [checkOrder]
      simp only [List.isEmpty_iff, List.drop_eq_nil_iff, List.length_drop, ← size_eq]
      rcases Nat.eq_or_lt_of_le hexpected with heq | hlt
      · rw [if_pos heq, if_pos (by omega)]
      · rw [if_neg (by omega), if_neg (by omega)]
  | case2 expected previous id stack hid =>
      -- The next node of the arena is not the one on the stack, whether there is one or not.
      cases tree.nodes.toList.drop expected with
      | nil => rw [checkOrder]
      | cons node rest => rw [checkOrder, if_pos hid]
  | case3 expected previous id stack hid hnone =>
      obtain ⟨node, hnode⟩ := node?_eq_some_of_lt (hstack id (by simp))
      rw [hnone] at hnode
      cases hnode
  | case4 expected previous id stack hid node hnode hstart =>
      obtain rfl : id = expected := Decidable.not_not.1 hid
      rw [node?_eq_some_iff_drop.1 hnode, checkOrder, if_neg hid, if_pos hstart]
  | case5 expected previous id stack hid node hnode hstart ih =>
      obtain rfl : id = expected := Decidable.not_not.1 hid
      rw [node?_eq_some_iff_drop.1 hnode, checkOrder, if_neg hid, if_neg hstart]
      refine ih (lt_size_of_node? hnode) fun child hchild => ?_
      rcases List.mem_append.1 hchild with hchild | hchild
      · obtain ⟨childNode, hread, -⟩ := hlinked id node hnode child hchild
        exact lt_size_of_node? hread
      · exact hstack child (by simp [hchild])

/-! ### What the validation accepts -/

/-- An arena whose nodes all pass is linked. -/
theorem linked_of_checkNodes {tree : SyntaxTree} {length : Nat}
    (h : ∀ (id : Nat) (node : SyntaxNode), tree.node? id = some node →
      tree.checkNode length id node = .ok ()) : tree.Linked := by
  intro id node hnode child hchild
  obtain ⟨childNode, hread, hparent, -⟩ :=
    (checkNode_eq_ok_iff.1 (h id node hnode)).2.2 child hchild
  exact ⟨childNode, hread, hparent⟩

/-- The validation succeeds if there is a root without a parent, every node passes, and the walk
from the root succeeds. -/
theorem validate_eq_ok_iff {tree : SyntaxTree} {length : Nat} :
    tree.validate length = .ok () ↔
      ∃ root, tree.node? 0 = some root ∧ root.parent = none ∧
        (∀ (id : Nat) (node : SyntaxNode), tree.node? id = some node →
          tree.checkNode length id node = .ok ()) ∧
        checkOrder 0 0 [0] tree.nodes.toList = .ok () := by
  rw [validate, ← checkNodes_eq_ok_iff]
  cases tree.node? 0 with
  | none => simp
  | some root =>
      cases hparent : root.parent with
      | some parent => simp [hparent]
      | none =>
          simp only [hparent, Option.isSome_none, Bool.false_eq_true, if_false, Option.some.injEq,
            exists_eq_left', true_and]
          cases tree.enumerated.forM fun (id, node) => tree.checkNode length id node with
          | error e => simp [bind, Except.bind]
          | ok u => simp [bind, Except.bind]

/-- A validation that succeeds has seen the arena of a tree. The walk gives a tree that is stored
from the first position to the last; the checks of the nodes give the parent links. -/
theorem eq_arena_of_validate {tree : SyntaxTree} {length : Nat}
    (h : tree.validate length = .ok ()) : ∃ t : OrderedTree, tree = t.arena := by
  obtain ⟨root, hroot, hparent, hnodes, horder⟩ := validate_eq_ok_iff.1 h
  rw [← List.drop_zero (l := tree.nodes.toList)] at horder
  obtain ⟨ts, hstack, hsize, hstored⟩ := forest_of_checkOrder (Nat.zero_le _) horder
  -- The walk starts with one node on the stack, so the forest is one tree.
  obtain ⟨t, rfl⟩ : ∃ t, ts = [t] := by
    have hlength := congrArg List.length hstack
    rw [length_roots] at hlength
    exact List.length_eq_one_iff.1 hlength.symm
  refine ⟨t, OrderedTree.eq_arena (linked_of_checkNodes hnodes) hroot hparent
    (storedAllAt_cons.1 hstored).1 ?_⟩
  simpa using hsize

/-- A validation that succeeds has seen ranges that fit the source: three of the conditions come
from the nodes one by one, and the order of the starts comes from the walk. -/
theorem fitsSource_of_validate {tree : SyntaxTree} {length : Nat}
    (h : tree.validate length = .ok ()) : tree.FitsSource length := by
  obtain ⟨root, -, -, hnodes, horder⟩ := validate_eq_ok_iff.1 h
  refine ⟨fun node hmem => ?_, fun node hmem => ?_,
    fun node hmem child hchild childNode hread => ?_, ?_⟩
  · obtain ⟨id, hid⟩ := mem_nodes_iff.1 hmem
    exact (checkNode_eq_ok_iff.1 (hnodes id node hid)).1
  · obtain ⟨id, hid⟩ := mem_nodes_iff.1 hmem
    exact (checkNode_eq_ok_iff.1 (hnodes id node hid)).2.1
  · obtain ⟨id, hid⟩ := mem_nodes_iff.1 hmem
    obtain ⟨childNode', hread', -, hinside⟩ :=
      (checkNode_eq_ok_iff.1 (hnodes id node hid)).2.2 child hchild
    cases hread.symm.trans hread'
    exact hinside
  · -- The walk begins with the start 0, which is dropped here.
    exact List.pairwise_map.1 (List.pairwise_cons.1 (starts_of_checkOrder horder)).2

/-- The arena of a tree whose ranges fit passes the validation. What is checked of the links holds
in every arena of a tree, and what is checked of the ranges is `FitsSource`. -/
theorem validate_arena {t : OrderedTree} {length : Nat} (hfits : t.arena.FitsSource length) :
    t.arena.validate length = .ok () := by
  obtain ⟨root, hroot, hparent⟩ := t.root_arena
  refine validate_eq_ok_iff.2 ⟨root, hroot, hparent, fun id node hnode => ?_, ?_⟩
  · have hmem := mem_nodes_iff.2 ⟨id, hnode⟩
    refine checkNode_eq_ok_iff.2 ⟨hfits.ordered node hmem, hfits.bounded node hmem, ?_⟩
    intro child hchild
    obtain ⟨childNode, hread, hlink⟩ := t.linked_arena id node hnode child hchild
    exact ⟨childNode, hread, hlink, hfits.nested node hmem child hchild childNode hread⟩
  · -- The walk over the whole arena, with nothing on the stack and nothing in the arena behind it.
    have hnodes : t.arena.nodes.toList = numberedAll none 0 [t] ++ [] := t.drop_zero_arena
    have hstarts : (0 :: (numberedAll none 0 [t] ++ []).map
        fun node : SyntaxNode => node.range.start).Pairwise (· ≤ ·) := by
      rw [← hnodes]
      exact List.pairwise_cons.2 ⟨fun _ _ => Nat.zero_le _, List.pairwise_map.2 hfits.starts⟩
    obtain ⟨last, hlast, -⟩ := checkOrder_numberedAll none 0 0 [t] [] [] hstarts
    rw [hnodes]
    exact hlast

/-- The arena of a tree whose ranges nest inside the source passes the validation, unless the start
of a node lies before that of the node before it. -/
theorem validate_arena_or {t : OrderedTree} {length : Nat}
    (hranges : ∀ node ∈ t.arena.nodes,
      node.range.start ≤ node.range.stop ∧ node.range.stop ≤ length)
    (hnested : ∀ node ∈ t.arena.nodes, ∀ child ∈ node.children, ∀ childNode,
      t.arena.node? child = some childNode → node.range.contains childNode.range = true) :
    t.arena.validate length = .ok () ∨
      ∃ node start previous,
        t.arena.validate length = .error (.startDecreases node start previous) := by
  obtain ⟨root, hroot, hparent⟩ := t.root_arena
  -- The links of an arena made from a tree are right, so only ranges are left to check.
  have hnodes : (t.arena.enumerated.forM fun (id, node) => t.arena.checkNode length id node) =
      .ok () := by
    refine checkNodes_eq_ok_iff.2 fun id node hnode => ?_
    have hmem := mem_nodes_iff.2 ⟨id, hnode⟩
    obtain ⟨hordered, hbounded⟩ := hranges node hmem
    refine checkNode_eq_ok_iff.2 ⟨hordered, hbounded, fun child hchild => ?_⟩
    obtain ⟨childNode, hread, hlink⟩ := t.linked_arena id node hnode child hchild
    exact ⟨childNode, hread, hlink, hnested node hmem child hchild childNode hread⟩
  have hvalidate : t.arena.validate length = checkOrder 0 0 [0] (numberedAll none 0 [t] ++ []) := by
    rw [validate, hroot]
    simp only [hparent, Option.isSome_none, Bool.false_eq_true, if_false]
    rw [hnodes, ← t.drop_zero_arena]
    rfl
  rw [hvalidate]
  rcases checkOrder_numberedAll_or none 0 0 [t] [] [] with ⟨last, hlast⟩ | hstops
  · exact .inl hlast
  · exact .inr hstops

/-! ### What the validation objects to -/

/-- A check of all elements fails as the check of one of them does, the first that fails. Nothing is
said of those behind it. -/
theorem exists_of_forM_eq_error {α ε : Type} {f : α → Except ε Unit} {xs : List α} {error : ε}
    (h : xs.forM f = .error error) : ∃ x ∈ xs, f x = .error error := by
  induction xs with
  | nil => cases h
  | cons x xs ih =>
      change (f x >>= fun _ => xs.forM f) = .error error at h
      cases hx : f x with
      | error e =>
          rw [hx] at h
          cases h
          exact ⟨x, by simp, hx⟩
      | ok u =>
          rw [hx] at h
          obtain ⟨y, hy, hfails⟩ := ih h
          exact ⟨y, by simp [hy], hfails⟩

/-- In a linked arena, a child is at fault only for sticking out of its parent, as it can be read
and links back. -/
theorem of_checkChild_eq_error {tree : SyntaxTree} (hlinked : tree.Linked) {id child : Nat}
    {node : SyntaxNode} (hnode : tree.node? id = some node) (hchild : child ∈ node.children)
    {error : TreeError} (h : tree.checkChild id node child = .error error) :
    ∃ childNode, tree.node? child = some childNode ∧ node.range.contains childNode.range = false ∧
      error = .childOutsideParent id node.range child childNode.range := by
  obtain ⟨childNode, hread, hparent⟩ := hlinked id node hnode child hchild
  simp only [checkChild, hread, hparent, ne_eq, not_true_eq_false, if_false] at h
  split at h
  · rename_i houtside
    cases h
    exact ⟨childNode, hread, by simpa using houtside, rfl⟩
  · cases h

/-- In a linked arena, a node is at fault for its range, or for a child that sticks out. The error
names the node, and the ranges that do not fit. -/
theorem of_checkNode_eq_error {tree : SyntaxTree} (hlinked : tree.Linked) {length id : Nat}
    {node : SyntaxNode} (hnode : tree.node? id = some node) {error : TreeError}
    (h : tree.checkNode length id node = .error error) :
    error = .invertedRange id node.range ∨ error = .outOfBounds id node.range length ∨
      ∃ child ∈ node.children, ∃ childNode, tree.node? child = some childNode ∧
        node.range.contains childNode.range = false ∧
        error = .childOutsideParent id node.range child childNode.range := by
  rw [checkNode] at h
  split at h
  · cases h
    exact .inl rfl
  · split at h
    · cases h
      exact .inr (.inl rfl)
    · obtain ⟨child, hchild, hfails⟩ := exists_of_forM_eq_error h
      exact .inr (.inr ⟨child, hchild, of_checkChild_eq_error hlinked hnode hchild hfails⟩)

/-- A validation that fails has found no root, a root with a parent, a node at fault, or a walk that
does not come through. -/
theorem of_validate_eq_error {tree : SyntaxTree} {length : Nat} {error : TreeError}
    (h : tree.validate length = .error error) :
    (tree.node? 0 = none ∧ error = .empty) ∨
    (∃ root, tree.node? 0 = some root ∧ root.parent.isSome = true ∧ error = .rootHasParent) ∨
    (∃ id node, tree.node? id = some node ∧ tree.checkNode length id node = .error error) ∨
    checkOrder 0 0 [0] tree.nodes.toList = .error error := by
  rw [validate] at h
  cases hroot : tree.node? 0 with
  | none =>
      rw [hroot] at h
      cases h
      exact .inl ⟨rfl, rfl⟩
  | some root =>
      simp only [hroot] at h
      -- The checks in their order: the root, its parent, every node, and then the walk.
      split at h
      · rename_i hparent
        cases h
        exact .inr (.inl ⟨root, rfl, hparent, rfl⟩)
      · cases hnodes : tree.enumerated.forM fun (id, node) => tree.checkNode length id node with
        | error e =>
            rw [hnodes] at h
            cases h
            obtain ⟨⟨id, node⟩, hmem, hfails⟩ := exists_of_forM_eq_error hnodes
            exact .inr (.inr (.inl ⟨id, node, mem_enumerated.1 hmem, hfails⟩))
        | ok u =>
            rw [hnodes] at h
            exact .inr (.inr (.inr h))

/-- The walk over a forest stops because a start decreases, or has not reached all trees. It starts
with the first root on its stack, so it is done with the first tree and then has nothing left to
visit. -/
theorem of_checkOrder_forestArena {t : OrderedTree} {ts : List OrderedTree} {error : TreeError}
    (h : checkOrder 0 0 [0] (OrderedTree.forestArena (t :: ts)).nodes.toList = .error error) :
    (∃ node start previous, error = .startDecreases node start previous) ∨
      (ts ≠ [] ∧ ∃ count, error = .unreachable count) := by
  have hnodes : (OrderedTree.forestArena (t :: ts)).nodes.toList =
      numberedAll none 0 [t] ++ numberedAll none (0 + t.size) ts := by
    simp [OrderedTree.forestArena]
  rw [hnodes] at h
  rcases checkOrder_numberedAll_or none 0 0 [t] [] (numberedAll none (0 + t.size) ts) with
    ⟨last, hlast⟩ | ⟨node, start, before, hstops⟩
  · -- The first tree is done and the stack is empty. What remains of the arena was not reached.
    rw [show (roots 0 [t] ++ [] : List NodeId) = [0] from rfl] at hlast
    rw [hlast, checkOrder] at h
    split at h
    · cases h
    · rename_i hrest
      cases h
      refine .inr ⟨fun hnil => hrest ?_, _, rfl⟩
      rw [hnil]
      simp
  · rw [show (roots 0 [t] ++ [] : List NodeId) = [0] from rfl] at hstops
    rw [hstops] at h
    cases h
    exact .inl ⟨node, start, before, rfl⟩

/-- What the validation can object to in a forest: the range of a node, a child outside its parent,
a start that decreases, or, if there is more than one tree, nodes that the walk did not reach. -/
theorem of_validate_forestArena {t : OrderedTree} {ts : List OrderedTree} {length : Nat}
    {error : TreeError} (h : (OrderedTree.forestArena (t :: ts)).validate length = .error error) :
    (∃ id range, error = .invertedRange id range) ∨
    (∃ id range, error = .outOfBounds id range length) ∨
    (∃ id node, (OrderedTree.forestArena (t :: ts)).node? id = some node ∧
      ∃ child ∈ node.children, ∃ childNode,
        (OrderedTree.forestArena (t :: ts)).node? child = some childNode ∧
        node.range.contains childNode.range = false ∧
        error = .childOutsideParent id node.range child childNode.range) ∨
    (∃ node start previous, error = .startDecreases node start previous) ∨
    (ts ≠ [] ∧ ∃ count, error = .unreachable count) := by
  obtain ⟨root, hroot, hparent⟩ :=
    OrderedTree.root_forestArena (t :: ts) (show 0 ∈ roots 0 (t :: ts) by simp)
  rcases of_validate_eq_error h with ⟨hnone, -⟩ | ⟨root', hroot', hsome, -⟩ |
    ⟨id, node, hnode, hfails⟩ | horder
  · -- There is a root, and it has no parent, so the first two cannot be.
    rw [hroot] at hnone
    cases hnone
  · cases hroot.symm.trans hroot'
    rw [hparent] at hsome
    cases hsome
  · rcases of_checkNode_eq_error (OrderedTree.linked_forestArena (t :: ts)) hnode hfails with
      rfl | rfl | houtside
    · exact .inl ⟨_, _, rfl⟩
    · exact .inr (.inl ⟨_, _, rfl⟩)
    · exact .inr (.inr (.inl ⟨id, node, hnode, houtside⟩))
  · exact .inr (.inr (.inr (of_checkOrder_forestArena horder)))

/-- Reading by number is validating: the walk starts only after every child list was checked, so it
never reads outside the arena. -/
theorem validateScan?_eq (tree : SyntaxTree) (length : Nat) :
    tree.validateScan? length = some (tree.validate length) := by
  rw [validateScan?, validate]
  cases hroot : tree.node? 0 with
  | none => rfl
  | some root =>
      by_cases hparent : root.parent.isSome = true
      · simp only [if_pos hparent]
      · simp only [if_neg hparent]
        cases hnodes : tree.enumerated.forM fun (id, node) => tree.checkNode length id node with
        | error e => rfl
        -- All nodes have passed, so every number on the stack is that of a node.
        | ok u =>
            have hlinked := linked_of_checkNodes (checkNodes_eq_ok_iff.1 hnodes)
            have hsize := lt_size_of_node? hroot
            exact orderScan?_eq hlinked 0 0 [0] (Nat.zero_le _) (by simpa using hsize)

/-- For every arena and every length, the validation comes to an end without a read outside the
arena. It succeeds exactly if the arena is the pre-order numbering of an ordered tree, with ranges
that are not inverted and stay inside the source, children inside their parents, and starts that
never decrease. -/
theorem validate_ok_iff_preorder (tree : SyntaxTree) (length : Nat) :
    tree.validateScan? length = some (tree.validate length) ∧
    (tree.validate length = .ok () ↔
      ∃ t : OrderedTree, tree = t.arena ∧ tree.FitsSource length) := by
  refine ⟨tree.validateScan?_eq length, fun h => ?_, ?_⟩
  · obtain ⟨t, ht⟩ := eq_arena_of_validate h
    exact ⟨t, ht, fitsSource_of_validate h⟩
  · rintro ⟨t, rfl, hfits⟩
    exact validate_arena hfits

end SyntaxTree

end Arborist
