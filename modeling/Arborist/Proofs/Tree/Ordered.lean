import Arborist.Tree.Basic

/-!
# `Arborist.Proofs.Tree.Ordered`: ordered trees and their pre-order numbering

An `OrderedTree` is a tree in the mathematical sense: a node with the list of trees below it. Its
nodes have no numbers. `numbered` hands them out in pre-order and writes down the arena that
results: the root first, then the children from left to right, each with everything below it.

Arenas are looked at by position, not as concatenated lists. `StoredAllAt arena first ts` says that
the trees `ts` stand in the arena one behind the other from position `first` on, as far as kinds,
ranges, names and child lists go. Parent links are kept apart (`Linked`), because they are what the
validation checks on its own. The two views are equal: an arena is the numbering of a forest exactly
if it is linked and stores it (`drop_eq_of_storedAllAt`, `storedAllAt_of_numberedAll`,
`linkedBelow_of_numberedAll`).

Statements are about forests, lists of trees, and go by `forest_induction`: a forest is empty, or a
first node with the forest of its children and the forest to its right.
-/

set_option autoImplicit false

namespace Arborist

/-- An ordered rooted tree: what the root carries, and the trees below it from left to right. -/
inductive OrderedTree where
  | node (kind : NodeKind) (range : TextRange) (name : Option String)
      (children : List OrderedTree)

namespace OrderedTree

mutual

/-- Number of nodes of a tree. -/
def size : OrderedTree → Nat
  | .node _ _ _ children => sizeAll children + 1

/-- Number of nodes of a forest. -/
def sizeAll : List OrderedTree → Nat
  | [] => 0
  | t :: ts => t.size + sizeAll ts

end

/-- The numbers of the roots of a forest that is numbered from `first` on. -/
def roots : (first : Nat) → List OrderedTree → List NodeId
  | _, [] => []
  | first, t :: ts => first :: roots (first + t.size) ts

mutual

/-- The nodes of a tree in pre-order, numbered from `first` on; `parent` is what the root links
to. -/
def numbered (parent : Option NodeId) (first : Nat) : OrderedTree → List SyntaxNode
  | .node kind range name children =>
    { kind, range, parent, children := roots (first + 1) children, name } ::
      numberedAll (some first) (first + 1) children

/-- The nodes of a forest, tree after tree, numbered from `first` on. -/
def numberedAll (parent : Option NodeId) : (first : Nat) → List OrderedTree → List SyntaxNode
  | _, [] => []
  | first, t :: ts => t.numbered parent first ++ numberedAll parent (first + t.size) ts

end

/-- The arena of a tree: its pre-order numbering from 0 on, with a root that has no parent. -/
def arena (t : OrderedTree) : SyntaxTree := ⟨(t.numbered none 0).toArray⟩

/-- The arena of a forest: its pre-order numbering from 0 on, with roots that have no parent. -/
def forestArena (ts : List OrderedTree) : SyntaxTree := ⟨(numberedAll none 0 ts).toArray⟩

mutual

/-- The tree stands in the arena at `first`, as far as kinds, ranges, names and child lists go. -/
def StoredAt (arena : SyntaxTree) (first : Nat) : OrderedTree → Prop
  | .node kind range name children =>
    (∃ parent, arena.node? first =
      some { kind, range, parent, children := roots (first + 1) children, name }) ∧
    StoredAllAt arena (first + 1) children

/-- The trees stand in the arena one behind the other from `first` on. -/
def StoredAllAt (arena : SyntaxTree) : (first : Nat) → List OrderedTree → Prop
  | _, [] => True
  | first, t :: ts => t.StoredAt arena first ∧ StoredAllAt arena (first + t.size) ts

end

/-- A forest is empty, or a node with the forest below it and the forest to its right. -/
theorem forest_induction {Q : List OrderedTree → Prop} (nil : Q [])
    (cons : ∀ kind range name children rest, Q children → Q rest →
      Q (.node kind range name children :: rest)) : (ts : List OrderedTree) → Q ts
  | [] => nil
  | .node kind range name children :: rest =>
    cons kind range name children rest (forest_induction nil cons children)
      (forest_induction nil cons rest)

/-- An empty forest has no nodes. -/
@[simp] theorem sizeAll_nil : sizeAll [] = 0 := by rw [sizeAll]

/-- The nodes of a forest are those of its trees. -/
@[simp] theorem sizeAll_cons (t : OrderedTree) (ts : List OrderedTree) :
    sizeAll (t :: ts) = t.size + sizeAll ts := by rw [sizeAll]

/-- A tree has one node more than the forest below its root. -/
@[simp] theorem size_node (kind : NodeKind) (range : TextRange) (name : Option String)
    (children : List OrderedTree) :
    (node kind range name children).size = sizeAll children + 1 := by rw [size]

/-- Every tree has a root. -/
theorem size_pos (t : OrderedTree) : 0 < t.size := by
  cases t with
  | node kind range name children => simp

/-- An empty forest has no roots. -/
@[simp] theorem roots_nil (first : Nat) : roots first [] = [] := rfl

/-- The next root comes behind all the nodes of the tree before it. -/
@[simp] theorem roots_cons (first : Nat) (t : OrderedTree) (ts : List OrderedTree) :
    roots first (t :: ts) = first :: roots (first + t.size) ts := rfl

/-- There is one root for each tree. -/
@[simp] theorem length_roots (first : Nat) (ts : List OrderedTree) :
    (roots first ts).length = ts.length := by
  induction ts generalizing first with
  | nil => rfl
  | cons t ts ih => simp [ih]

/-- Sizes of forests add up. -/
theorem sizeAll_append (ts us : List OrderedTree) :
    sizeAll (ts ++ us) = sizeAll ts + sizeAll us := by
  induction ts with
  | nil => simp
  | cons t ts ih => simp [ih, Nat.add_assoc]

/-- A second forest has its roots from behind the first one on. -/
theorem roots_append (first : Nat) (ts us : List OrderedTree) :
    roots first (ts ++ us) = roots first ts ++ roots (first + sizeAll ts) us := by
  induction ts generalizing first with
  | nil => simp
  | cons t ts ih => simp [ih, Nat.add_assoc]

/-- Roots lie in the part of the arena that their forest takes up. So the children of a node come
behind it. -/
theorem mem_roots_bounds {first id : Nat} {ts : List OrderedTree} (h : id ∈ roots first ts) :
    first ≤ id ∧ id < first + sizeAll ts := by
  induction ts generalizing first with
  | nil => simp at h
  | cons t ts ih =>
      have ht := t.size_pos
      rw [sizeAll_cons]
      rcases List.mem_cons.1 h with rfl | h
      · omega
      · have := ih h
        omega

/-- The numbering of an empty forest. -/
@[simp] theorem numberedAll_nil (parent : Option NodeId) (first : Nat) :
    numberedAll parent first [] = [] := by rw [numberedAll]

/-- The numbering goes on behind the nodes of the first tree. -/
@[simp] theorem numberedAll_cons (parent : Option NodeId) (first : Nat) (t : OrderedTree)
    (ts : List OrderedTree) :
    numberedAll parent first (t :: ts) =
      t.numbered parent first ++ numberedAll parent (first + t.size) ts := by rw [numberedAll]

/-- A root comes before the nodes below it, which have it as their parent. -/
theorem numbered_node (parent : Option NodeId) (first : Nat) (kind : NodeKind)
    (range : TextRange) (name : Option String) (children : List OrderedTree) :
    (node kind range name children).numbered parent first =
      { kind, range, parent, children := roots (first + 1) children, name } ::
        numberedAll (some first) (first + 1) children := by rw [numbered]

/-- The numbering has one entry for each node. -/
@[simp] theorem length_numberedAll (parent : Option NodeId) (first : Nat)
    (ts : List OrderedTree) : (numberedAll parent first ts).length = sizeAll ts := by
  induction ts using forest_induction generalizing parent first with
  | nil => simp
  | cons kind range name children rest ihc ihr =>
      simp only [numberedAll_cons, numbered_node, List.length_append, List.length_cons, ihc, ihr,
        sizeAll_cons, size_node]

/-- A tree is numbered as the forest with this tree only. -/
theorem numberedAll_singleton (parent : Option NodeId) (first : Nat) (t : OrderedTree) :
    numberedAll parent first [t] = t.numbered parent first := by
  simp

/-- The numbering of a tree has one entry for each of its nodes. -/
@[simp] theorem length_numbered (parent : Option NodeId) (first : Nat) (t : OrderedTree) :
    (t.numbered parent first).length = t.size := by
  rw [← numberedAll_singleton, length_numberedAll, sizeAll_cons, sizeAll_nil, Nat.add_zero]

/-- The arena of a tree has its nodes and no others. -/
@[simp] theorem size_arena (t : OrderedTree) : t.arena.size = t.size := by
  simp [arena, SyntaxTree.size]

/-- An empty forest stands everywhere. -/
theorem storedAllAt_nil (arena : SyntaxTree) (first : Nat) :
    StoredAllAt arena first [] := by
  rw [StoredAllAt]
  trivial

/-- A forest is stored tree by tree, each behind the one before it. -/
theorem storedAllAt_cons {arena : SyntaxTree} {first : Nat} {t : OrderedTree}
    {ts : List OrderedTree} :
    StoredAllAt arena first (t :: ts) ↔
      t.StoredAt arena first ∧ StoredAllAt arena (first + t.size) ts := by
  rw [StoredAllAt]

/-- A tree is stored if its root is, apart from the parent link, and the forest below it comes
next. -/
theorem storedAt_node {arena : SyntaxTree} {first : Nat} {kind : NodeKind} {range : TextRange}
    {name : Option String} {children : List OrderedTree} :
    (node kind range name children).StoredAt arena first ↔
      (∃ parent, arena.node? first =
        some { kind, range, parent, children := roots (first + 1) children, name }) ∧
      StoredAllAt arena (first + 1) children := by
  rw [StoredAt]

/-- Two forests behind each other are stored as one. -/
theorem storedAllAt_append {arena : SyntaxTree} {first : Nat} {ts us : List OrderedTree} :
    StoredAllAt arena first (ts ++ us) ↔
      StoredAllAt arena first ts ∧ StoredAllAt arena (first + sizeAll ts) us := by
  induction ts generalizing first with
  | nil => simp [storedAllAt_nil]
  | cons t ts ih => simp [storedAllAt_cons, ih, and_assoc, Nat.add_assoc]

end OrderedTree

namespace SyntaxTree

/-- Every child in a child list exists and links back to the node that lists it. -/
def Linked (tree : SyntaxTree) : Prop :=
  ∀ (id : Nat) (node : SyntaxNode), tree.node? id = some node → ∀ child ∈ node.children,
    ∃ childNode, tree.node? child = some childNode ∧ childNode.parent = some id

/-- Reading a node is looking it up in the list of nodes, for which there are more lemmas. -/
theorem node?_eq (tree : SyntaxTree) (id : Nat) : tree.node? id = tree.nodes.toList[id]? := by
  rw [node?, Array.getElem?_toList]

/-- The size of an arena is the length of that list. -/
theorem size_eq (tree : SyntaxTree) : tree.size = tree.nodes.toList.length := by
  rw [size, Array.length_toList]

/-- A position that can be read is one of the arena. -/
theorem lt_size_of_node? {tree : SyntaxTree} {id : Nat} {node : SyntaxNode}
    (h : tree.node? id = some node) : id < tree.size := by
  rw [node?_eq] at h
  rw [size_eq]
  exact (List.getElem?_eq_some_iff.1 h).1

/-- A position of the arena can be read. -/
theorem node?_eq_some_of_lt {tree : SyntaxTree} {id : Nat} (h : id < tree.size) :
    ∃ node, tree.node? id = some node := by
  rw [size_eq] at h
  exact ⟨tree.nodes.toList[id], by rw [node?_eq, List.getElem?_eq_getElem h]⟩

/-- A node is the first of the arena from its position on. This turns reads into statements about
`drop`, in which numberings are written down. -/
theorem node?_eq_some_iff_drop {tree : SyntaxTree} {id : Nat} {node : SyntaxNode} :
    tree.node? id = some node ↔
      tree.nodes.toList.drop id = node :: tree.nodes.toList.drop (id + 1) := by
  rw [node?_eq]
  constructor
  · intro h
    obtain ⟨hlt, rfl⟩ := List.getElem?_eq_some_iff.1 h
    exact List.drop_eq_getElem_cons hlt
  · intro h
    rw [← List.head?_drop, h, List.head?_cons]

end SyntaxTree

namespace OrderedTree

/-- Behind a numbered forest comes what is not part of it. -/
theorem drop_add_sizeAll {tree : SyntaxTree} {parent : Option NodeId} {first : Nat}
    {ts : List OrderedTree} {rest : List SyntaxNode}
    (h : tree.nodes.toList.drop first = numberedAll parent first ts ++ rest) :
    tree.nodes.toList.drop (first + sizeAll ts) = rest := by
  rw [← List.drop_drop, h, ← length_numberedAll parent first ts, List.drop_left]

/-- The arena behind a numbered forest opens with its first node, the forest below that node and
the forest to its right. -/
theorem drop_eq_numberedAll_cons {tree : SyntaxTree} {parent : Option NodeId} {first : Nat}
    {kind : NodeKind} {range : TextRange} {name : Option String} {children ts : List OrderedTree}
    {rest : List SyntaxNode}
    (h : tree.nodes.toList.drop first =
      numberedAll parent first (node kind range name children :: ts) ++ rest) :
    tree.node? first =
        some { kind, range, parent, children := roots (first + 1) children, name } ∧
      tree.nodes.toList.drop (first + 1) = numberedAll (some first) (first + 1) children ++
        (numberedAll parent (first + (sizeAll children + 1)) ts ++ rest) ∧
      tree.nodes.toList.drop (first + (sizeAll children + 1)) =
        numberedAll parent (first + (sizeAll children + 1)) ts ++ rest := by
  rw [numberedAll_cons, numbered_node, size_node] at h
  have htail : tree.nodes.toList.drop (first + 1) =
      numberedAll (some first) (first + 1) children ++
        (numberedAll parent (first + (sizeAll children + 1)) ts ++ rest) := by
    rw [← List.drop_drop, h]
    simp
  refine ⟨?_, htail, ?_⟩
  · rw [SyntaxTree.node?_eq_some_iff_drop, h, htail]
    simp
  · -- The forest to the right comes behind all nodes of the forest below.
    rw [show first + (sizeAll children + 1) = first + 1 + sizeAll children by omega] at htail ⊢
    exact drop_add_sizeAll htail

/-- The numbering of a forest stores it. The induction follows the forest: the node in front, what
is below it, and what is to its right are numbered one behind the other. -/
theorem storedAllAt_of_numberedAll {tree : SyntaxTree} {parent : Option NodeId} {first : Nat}
    {ts : List OrderedTree} {rest : List SyntaxNode}
    (h : tree.nodes.toList.drop first = numberedAll parent first ts ++ rest) :
    StoredAllAt tree first ts := by
  induction ts using forest_induction generalizing parent first rest with
  | nil => exact storedAllAt_nil tree first
  | cons kind range name children ts ihc ihr =>
      obtain ⟨hnode, hchildren, hts⟩ := drop_eq_numberedAll_cons h
      rw [storedAllAt_cons, storedAt_node, size_node]
      exact ⟨⟨⟨parent, hnode⟩, ihc hchildren⟩, ihr hts⟩

/-- The roots of a numbered forest can be read in the arena, and they link to the parent of the
forest. -/
theorem parent_of_numberedAll {tree : SyntaxTree} {parent : Option NodeId} {first : Nat}
    {ts : List OrderedTree} {rest : List SyntaxNode}
    (h : tree.nodes.toList.drop first = numberedAll parent first ts ++ rest) :
    ∀ id ∈ roots first ts, ∃ node, tree.node? id = some node ∧ node.parent = parent := by
  induction ts generalizing first rest with
  | nil => simp
  | cons t ts ih =>
      cases t with
      | node kind range name children =>
          obtain ⟨hnode, -, hts⟩ := drop_eq_numberedAll_cons h
          intro id hid
          rw [roots_cons, size_node] at hid
          rcases List.mem_cons.1 hid with rfl | hid
          · exact ⟨_, hnode, rfl⟩
          · exact ih hts id hid

/-- Inside a numbered forest, every child links back to the node that lists it. The node that is
asked for is the first one, or in one of the two smaller forests. -/
theorem linkedBelow_of_numberedAll {tree : SyntaxTree} {parent : Option NodeId} {first : Nat}
    {ts : List OrderedTree} {rest : List SyntaxNode}
    (h : tree.nodes.toList.drop first = numberedAll parent first ts ++ rest) (id : Nat)
    (node : SyntaxNode) (hfirst : first ≤ id) (hlast : id < first + sizeAll ts)
    (hnode : tree.node? id = some node) :
    ∀ child ∈ node.children,
      ∃ childNode, tree.node? child = some childNode ∧ childNode.parent = some id := by
  induction ts using forest_induction generalizing parent first rest with
  | nil =>
      rw [sizeAll_nil] at hlast
      omega
  | cons kind range name children ts ihc ihr =>
      obtain ⟨hroot, hchildren, hts⟩ := drop_eq_numberedAll_cons h
      rw [sizeAll_cons, size_node] at hlast
      -- `id` is the first node, below it, or to its right.
      rcases Nat.eq_or_lt_of_le hfirst with rfl | hlt
      · cases hroot.symm.trans hnode
        exact parent_of_numberedAll hchildren
      · rcases Nat.lt_or_ge id (first + (sizeAll children + 1)) with hbelow | hright
        · exact ihc hchildren hlt (by omega)
        · exact ihr hts hright (by omega)

/-- A linked arena that stores a forest is its numbering there, if the roots link to `parent`.
Storage does not tell the parents; the links of the arena do, level by level from the roots down. -/
theorem drop_eq_of_storedAllAt {tree : SyntaxTree} (parent : Option NodeId)
    (hlinked : tree.Linked) {first : Nat} {ts : List OrderedTree}
    (hstored : StoredAllAt tree first ts)
    (hparent : ∀ id ∈ roots first ts, ∀ node, tree.node? id = some node → node.parent = parent) :
    ∃ rest, tree.nodes.toList.drop first = numberedAll parent first ts ++ rest := by
  induction ts using forest_induction generalizing parent first with
  | nil => exact ⟨tree.nodes.toList.drop first, by simp⟩
  | cons kind range name children ts ihc ihr =>
      rw [storedAllAt_cons, storedAt_node, size_node] at hstored
      obtain ⟨⟨⟨actual, hnode⟩, hchildren⟩, hts⟩ := hstored
      obtain rfl : actual = parent := hparent first (by simp) _ hnode
      -- The children link to `first` because the arena is linked.
      obtain ⟨below, hbelow⟩ := ihc (some first) hchildren fun id hid node hid' => by
        obtain ⟨child, hchild, hlink⟩ := hlinked first _ hnode id hid
        cases hid'.symm.trans hchild
        exact hlink
      obtain ⟨right, hright⟩ := ihr actual hts fun id hid => hparent id (by simp [hid])
      refine ⟨right, ?_⟩
      have hrest : below = tree.nodes.toList.drop (first + (sizeAll children + 1)) := by
        rw [show first + (sizeAll children + 1) = first + 1 + sizeAll children by omega]
        exact (drop_add_sizeAll hbelow).symm
      rw [SyntaxTree.node?_eq_some_iff_drop.1 hnode, hbelow, hrest, hright, numberedAll_cons,
        numbered_node, size_node]
      simp

/-! ### The arena of a forest -/

/-- The arena of a forest has its nodes and no others. -/
@[simp] theorem size_forestArena (ts : List OrderedTree) : (forestArena ts).size = sizeAll ts := by
  simp [forestArena, SyntaxTree.size]

/-- The arena of a forest is its numbering, in the form that the lemmas above ask for. -/
theorem drop_zero_forestArena (ts : List OrderedTree) :
    (forestArena ts).nodes.toList.drop 0 = numberedAll none 0 ts ++ [] := by
  simp [forestArena]

/-- The arena of a forest stores it from the first position on. -/
theorem storedAllAt_forestArena (ts : List OrderedTree) : StoredAllAt (forestArena ts) 0 ts :=
  storedAllAt_of_numberedAll (drop_zero_forestArena ts)

/-- In the arena of a forest every child links back to its parent. -/
theorem linked_forestArena (ts : List OrderedTree) : (forestArena ts).Linked := fun id node hnode =>
  linkedBelow_of_numberedAll (drop_zero_forestArena ts) id node (Nat.zero_le id)
    (by have := SyntaxTree.lt_size_of_node? hnode; simpa using this) hnode

/-- The roots of the forest have no parent there. -/
theorem root_forestArena (ts : List OrderedTree) {id : Nat} (h : id ∈ roots 0 ts) :
    ∃ root, (forestArena ts).node? id = some root ∧ root.parent = none :=
  parent_of_numberedAll (drop_zero_forestArena ts) id h

/-! ### The arena of one tree -/

/-- The arena of a tree is that of the forest with this tree only. -/
theorem arena_eq_forestArena (t : OrderedTree) : t.arena = forestArena [t] := by
  rw [arena, forestArena, numberedAll_singleton]

/-- The arena of a tree is its numbering, again as the lemmas ask for it. -/
theorem drop_zero_arena (t : OrderedTree) :
    t.arena.nodes.toList.drop 0 = numberedAll none 0 [t] ++ [] := by
  simp [arena]

/-- The arena of a tree stores it from the first position on. -/
theorem storedAt_arena (t : OrderedTree) : t.StoredAt t.arena 0 :=
  (storedAllAt_cons.1 (storedAllAt_of_numberedAll (drop_zero_arena t))).1

/-- In the arena of a tree every child links back to its parent. -/
theorem linked_arena (t : OrderedTree) : t.arena.Linked := by
  rw [arena_eq_forestArena]
  exact linked_forestArena [t]

/-- The first node there is the root, and it has no parent. -/
theorem root_arena (t : OrderedTree) :
    ∃ root, t.arena.node? 0 = some root ∧ root.parent = none := by
  rw [arena_eq_forestArena]
  exact root_forestArena [t] (by simp)

/-- A linked arena with a root that has no parent is the arena of the tree that fills it. Such an
arena is the numbering of the tree by `drop_eq_of_storedAllAt`, with the rest of the nodes behind
it, of which there are none. -/
theorem eq_arena {tree : SyntaxTree} {t : OrderedTree} {root : SyntaxNode}
    (hlinked : tree.Linked) (hroot : tree.node? 0 = some root) (hparent : root.parent = none)
    (hstored : t.StoredAt tree 0) (hsize : t.size = tree.size) : tree = t.arena := by
  have hall : StoredAllAt tree 0 [t] :=
    storedAllAt_cons.2 ⟨hstored, storedAllAt_nil tree _⟩
  obtain ⟨rest, hrest⟩ := drop_eq_of_storedAllAt none hlinked hall
    fun id hid node hnode => by
      simp only [roots_cons, roots_nil, List.mem_singleton] at hid
      rw [hid] at hnode
      cases hroot.symm.trans hnode
      exact hparent
  rw [List.drop_zero, numberedAll_singleton] at hrest
  -- Both lists have one entry for each node, so nothing is left over.
  have hnil : rest = [] := by
    have hlength := congrArg List.length hrest
    rw [List.length_append, length_numbered, hsize, SyntaxTree.size_eq] at hlength
    exact List.length_eq_zero_iff.1 (by omega)
  rw [hnil, List.append_nil] at hrest
  cases tree with
  | mk nodes =>
      rw [arena, SyntaxTree.mk.injEq, ← hrest, Array.toArray_toList]

end OrderedTree

end Arborist
