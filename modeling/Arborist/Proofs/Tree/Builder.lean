import Arborist.Proofs.Tree.Navigation
import Arborist.Tree.Builder

/-!
# `Arborist.Proofs.Tree.Builder`: what a builder makes of a tree

`TreeBuilder.plantAll` hands a forest to a builder, with one `start` and one `finish` for each node.
The builder then holds the pre-order numbering of the forest (`plants_plantAll`): of the forest as
it is if the builder is plain, and of the fitted forest, in which every node covers the nodes below
it (`OrderedTree.fit`), if it is a fitting one. While a node is open its range is still the one it
was opened with, and it gets its final range when it is closed; by then its children have theirs. So
a tree that was planted as a whole is the arena of the fitted tree (`build_plant`).

`OrderedTree.HoldsAll` is a property of every node of a forest with what is below it. Fitting passes
such properties on from the leaves up (`HoldsAll.fitAll`), and in an arena they are found at every
position (`HoldsAll.exists_storedAt`).
-/

set_option autoImplicit false

namespace Arborist

namespace OrderedTree

/-- The range of the root. -/
def range : OrderedTree → TextRange
  | .node _ range _ _ => range

/-- The trees under the root, in order. -/
def children : OrderedTree → List OrderedTree
  | .node _ _ _ children => children

/-! ### Fitting -/

mutual

/-- The tree with every range widened, from the leaves up, to cover those below. -/
def fit : OrderedTree → OrderedTree
  | .node kind range name children =>
    .node kind ((fitAll children).foldl (fun range child => range.cover child.range) range) name
      (fitAll children)

/-- The forest with every range widened to cover those below. -/
def fitAll : List OrderedTree → List OrderedTree
  | [] => []
  | t :: ts => t.fit :: fitAll ts

end

/-- No trees need no fitting. -/
@[simp] theorem fitAll_nil : fitAll [] = [] := by rw [fitAll]

/-- The trees of a forest are fitted one by one. -/
@[simp] theorem fitAll_cons (t : OrderedTree) (ts : List OrderedTree) :
    fitAll (t :: ts) = t.fit :: fitAll ts := by rw [fitAll]

/-- A node is fitted after its children, and its new range covers the new ranges of these. -/
theorem fit_node (kind : NodeKind) (range : TextRange) (name : Option String)
    (children : List OrderedTree) :
    (node kind range name children).fit =
      node kind ((fitAll children).foldl (fun range child => range.cover child.range) range) name
        (fitAll children) := by rw [fit]

end OrderedTree

namespace TextRange

/-- A cover contains what it covers: the range it started from, and each of the ranges it was
widened by. -/
theorem contains_foldl_cover (range : TextRange) (ts : List OrderedTree) :
    (ts.foldl (fun range child => range.cover child.range) range).contains range = true ∧
      ∀ t ∈ ts,
        (ts.foldl (fun range child => range.cover child.range) range).contains t.range = true := by
  induction ts generalizing range with
  | nil => exact ⟨contains_iff.2 ⟨Nat.le_refl _, Nat.le_refl _⟩, by simp⟩
  | cons t ts ih =>
      -- The cover of the first child is where the run over the others starts.
      obtain ⟨hrange, hts⟩ := ih (range.cover t.range)
      rw [contains_iff] at hrange
      simp only [cover] at hrange
      refine ⟨contains_iff.2 ?_, fun u hu => ?_⟩
      · simp only [List.foldl_cons, cover]
        omega
      · rcases List.mem_cons.1 hu with rfl | hu
        · refine contains_iff.2 ?_
          simp only [List.foldl_cons, cover]
          omega
        · exact hts u hu

end TextRange

namespace OrderedTree

/-- A fitted tree contains its children. -/
theorem contains_child_fit (t : OrderedTree) :
    ∀ c ∈ t.fit.children, t.fit.range.contains c.range = true := by
  cases t with
  | node kind range name children =>
      rw [fit_node]
      exact (TextRange.contains_foldl_cover range (fitAll children)).2

/-- Fitting changes ranges only. -/
@[simp] theorem sizeAll_fitAll (ts : List OrderedTree) : sizeAll (fitAll ts) = sizeAll ts := by
  induction ts using forest_induction with
  | nil => simp
  | cons kind range name children ts ihc ihr => simp [fit_node, ihc, ihr]

/-- A tree has as many nodes as before it was fitted. -/
@[simp] theorem size_fit (t : OrderedTree) : t.fit.size = t.size := by
  simpa using sizeAll_fitAll [t]

/-- Fitting leaves the sizes of trees and with them the positions of their roots. -/
@[simp] theorem roots_fitAll (first : Nat) (ts : List OrderedTree) :
    roots first (fitAll ts) = roots first ts := by
  induction ts generalizing first with
  | nil => simp
  | cons t ts ih => simp [ih]

/-- Forests are fitted apart, as no tree in one is below a tree of the other. -/
theorem fitAll_append (ts us : List OrderedTree) : fitAll (ts ++ us) = fitAll ts ++ fitAll us := by
  induction ts with
  | nil => simp
  | cons t ts ih => simp [ih]

/-- The forest as a builder leaves it: fitted, or as it is. -/
def closedAll (fitting : Bool) (ts : List OrderedTree) : List OrderedTree :=
  if fitting then fitAll ts else ts

/-- A fitting builder leaves the fitted forest. -/
@[simp] theorem closedAll_true (ts : List OrderedTree) : closedAll true ts = fitAll ts := rfl

/-- A plain builder leaves the forest as it is. -/
@[simp] theorem closedAll_false (ts : List OrderedTree) : closedAll false ts = ts := rfl

/-- No trees are left as no trees. -/
@[simp] theorem closedAll_nil (fitting : Bool) : closedAll fitting [] = [] := by
  cases fitting <;> simp

/-- Neither builder adds or drops a node. -/
@[simp] theorem sizeAll_closedAll (fitting : Bool) (ts : List OrderedTree) :
    sizeAll (closedAll fitting ts) = sizeAll ts := by
  cases fitting <;> simp

/-- Nor does it move one. -/
@[simp] theorem roots_closedAll (fitting : Bool) (first : Nat) (ts : List OrderedTree) :
    roots first (closedAll fitting ts) = roots first ts := by
  cases fitting <;> simp

/-- What a builder leaves of two forests is what it leaves of each. -/
theorem closedAll_append (fitting : Bool) (ts us : List OrderedTree) :
    closedAll fitting (ts ++ us) = closedAll fitting ts ++ closedAll fitting us := by
  cases fitting
  · rfl
  · exact fitAll_append ts us

/-- A second forest is numbered from behind the first. -/
theorem numberedAll_append (parent : Option NodeId) (first : Nat) (ts us : List OrderedTree) :
    numberedAll parent first (ts ++ us) =
      numberedAll parent first ts ++ numberedAll parent (first + sizeAll ts) us := by
  induction ts generalizing first with
  | nil => simp
  | cons t ts ih => simp [ih, Nat.add_assoc]

/-! ### Properties of every node -/

mutual

/-- The property holds of the tree and of every tree in it. -/
def Holds (P : OrderedTree → Prop) : OrderedTree → Prop
  | .node kind range name children => P (.node kind range name children) ∧ HoldsAll P children

/-- The property holds of every tree in the forest. -/
def HoldsAll (P : OrderedTree → Prop) : List OrderedTree → Prop
  | [] => True
  | t :: ts => t.Holds P ∧ HoldsAll P ts

end

/-- Every property holds of no trees. -/
theorem holdsAll_nil (P : OrderedTree → Prop) : HoldsAll P [] := by
  rw [HoldsAll]
  trivial

/-- A property of a forest, tree by tree. -/
theorem holdsAll_cons {P : OrderedTree → Prop} {t : OrderedTree} {ts : List OrderedTree} :
    HoldsAll P (t :: ts) ↔ t.Holds P ∧ HoldsAll P ts := by rw [HoldsAll]

/-- A property of a tree is one of its root, with what is below it, and of the forest below. -/
theorem holds_node {P : OrderedTree → Prop} {kind : NodeKind} {range : TextRange}
    {name : Option String} {children : List OrderedTree} :
    (node kind range name children).Holds P ↔
      P (.node kind range name children) ∧ HoldsAll P children := by rw [Holds]

/-- The trees of the forest themselves have the property, and not only the trees below them. -/
theorem HoldsAll.of_mem {P : OrderedTree → Prop} {ts : List OrderedTree} (h : HoldsAll P ts)
    {t : OrderedTree} (ht : t ∈ ts) : P t := by
  induction ts with
  | nil => cases ht
  | cons u ts ih =>
      obtain ⟨hu, hts⟩ := holdsAll_cons.1 h
      rcases List.mem_cons.1 ht with rfl | ht
      · cases t with
        | node kind range name children => exact (holds_node.1 hu).1
      · exact ih hts ht

/-- Fitting passes properties on: it is enough to look at one node over a fitted forest. The
property that is known before fitting and the one that is shown after it may differ. -/
theorem HoldsAll.fitAll {P Q : OrderedTree → Prop} {ts : List OrderedTree} (h : HoldsAll P ts)
    (hstep : ∀ kind range name children, P (.node kind range name children) →
      HoldsAll Q (OrderedTree.fitAll children) →
      Q (OrderedTree.node kind range name children).fit) :
    HoldsAll Q (OrderedTree.fitAll ts) := by
  induction ts using forest_induction with
  | nil =>
      rw [fitAll_nil]
      exact holdsAll_nil Q
  | cons kind range name children ts ihc ihr =>
      -- The children are fitted first, so the step can use what then holds of them.
      obtain ⟨hnode, hts⟩ := holdsAll_cons.1 h
      obtain ⟨hroot, hchildren⟩ := holds_node.1 hnode
      have hbelow := ihc hchildren
      have hfit := hstep kind range name children hroot hbelow
      rw [fitAll_cons, holdsAll_cons]
      rw [fit_node] at hfit ⊢
      exact ⟨holds_node.2 ⟨hfit, hbelow⟩, ihr hts⟩

/-- Every position of a stored forest holds a tree with the property. The induction follows the way
to the position: the first root, below it, or to its right. -/
theorem HoldsAll.exists_storedAt {P : OrderedTree → Prop} {tree : SyntaxTree} {first id : Nat}
    {ts : List OrderedTree} (h : HoldsAll P ts) (hstored : StoredAllAt tree first ts)
    (hfirst : first ≤ id) (hlast : id < first + sizeAll ts) :
    ∃ t : OrderedTree, P t ∧ t.StoredAt tree id := by
  have hplace := places_of_lt hfirst hlast
  clear hfirst hlast
  induction hplace with
  | root kind range name children ts first =>
      exact ⟨_, (holds_node.1 (holdsAll_cons.1 h).1).1, (storedAllAt_cons.1 hstored).1⟩
  | under hplace ih =>
      exact ih (holds_node.1 (holdsAll_cons.1 h).1).2
        (storedAt_node.1 (storedAllAt_cons.1 hstored).1).2
  | right hplace ih => exact ih (holdsAll_cons.1 h).2 (storedAllAt_cons.1 hstored).2

/-- Every node of the arena of a tree is the root of a tree with the property. What is proved by
induction on trees can be used at every position of the arena in this way. -/
theorem Holds.exists_storedAt {P : OrderedTree → Prop} {t : OrderedTree} (h : t.Holds P) {id : Nat}
    {node : SyntaxNode} (hnode : t.arena.node? id = some node) :
    ∃ u : OrderedTree, P u ∧ u.StoredAt t.arena id := by
  have hlt := SyntaxTree.lt_size_of_node? hnode
  rw [size_arena] at hlt
  have hall : HoldsAll P [t] := holdsAll_cons.2 ⟨h, holdsAll_nil P⟩
  exact hall.exists_storedAt (storedAllAt_singleton.2 t.storedAt_arena) (Nat.zero_le id)
    (by simpa using hlt)

/-- The roots of a stored forest are where its trees stand. So the children that a node lists are
the trees below it. -/
theorem StoredAllAt.exists_mem {tree : SyntaxTree} {first id : Nat} {ts : List OrderedTree}
    (h : StoredAllAt tree first ts) (hid : id ∈ roots first ts) :
    ∃ t ∈ ts, t.StoredAt tree id := by
  induction ts generalizing first with
  | nil => cases hid
  | cons t ts ih =>
      obtain ⟨ht, hts⟩ := storedAllAt_cons.1 h
      rw [roots_cons] at hid
      rcases List.mem_cons.1 hid with rfl | hid
      · exact ⟨t, by simp, ht⟩
      · obtain ⟨u, hu, hstored⟩ := ih hts hid
        exact ⟨u, by simp [hu], hstored⟩

/-- Where a tree is stored, the node there has the range of its root. -/
theorem StoredAt.node?_range {tree : SyntaxTree} {id : Nat} {t : OrderedTree}
    (h : t.StoredAt tree id) : ∃ node, tree.node? id = some node ∧ node.range = t.range := by
  cases t with
  | node kind range name children =>
      obtain ⟨⟨parent, hnode⟩, -⟩ := storedAt_node.1 h
      exact ⟨_, hnode, rfl⟩

/-- If a stored tree contains its children, the node there contains the nodes it lists: the listed
positions are those where the children of the tree are stored. -/
theorem StoredAt.contains_child {tree : SyntaxTree} {id child : Nat} {t : OrderedTree}
    {node childNode : SyntaxNode} (h : t.StoredAt tree id)
    (hcontains : ∀ c ∈ t.children, t.range.contains c.range = true)
    (hnode : tree.node? id = some node) (hchild : child ∈ node.children)
    (hread : tree.node? child = some childNode) :
    node.range.contains childNode.range = true := by
  cases t with
  | node kind range name children =>
      obtain ⟨⟨parent, hstored⟩, hchildren⟩ := storedAt_node.1 h
      cases hnode.symm.trans hstored
      obtain ⟨v, hv, hstoredChild⟩ := hchildren.exists_mem hchild
      obtain ⟨childNode', hread', hrange⟩ := hstoredChild.node?_range
      cases hread.symm.trans hread'
      rw [hrange]
      exact hcontains v hv

end OrderedTree

/-! ### Planting -/

namespace TreeBuilder

open OrderedTree (roots sizeAll numberedAll fitAll closedAll forest_induction)

mutual

/-- Hands a tree to the builder. -/
def plant (b : TreeBuilder) : OrderedTree → TreeBuilder
  | .node kind range name children => (plantAll (b.start kind range name) children).finish

/-- Hands a forest to the builder, tree after tree. -/
def plantAll (b : TreeBuilder) : List OrderedTree → TreeBuilder
  | [] => b
  | t :: ts => plantAll (b.plant t) ts

end

/-- Nothing is planted for no trees. -/
theorem plantAll_nil (b : TreeBuilder) : b.plantAll [] = b := by rw [plantAll]

/-- Trees are planted from left to right. -/
theorem plantAll_cons (b : TreeBuilder) (t : OrderedTree) (ts : List OrderedTree) :
    b.plantAll (t :: ts) = (b.plant t).plantAll ts := by rw [plantAll]

/-- A node is opened, its children are planted, and it is closed. -/
theorem plant_node (b : TreeBuilder) (kind : NodeKind) (range : TextRange) (name : Option String)
    (children : List OrderedTree) :
    b.plant (.node kind range name children) =
      ((b.start kind range name).plantAll children).finish := by rw [plant]

/-- The nodes with more children for the node `parent`. -/
def adopt (parent : Option NodeId) (ids : List NodeId) (nodes : List SyntaxNode) :
    List SyntaxNode :=
  match parent with
  | none => nodes
  | some p => nodes.modify p fun node => { node with children := node.children ++ ids }

/-- No node is added by giving another one more children. -/
@[simp] theorem length_adopt (parent : Option NodeId) (ids : List NodeId)
    (nodes : List SyntaxNode) : (adopt parent ids nodes).length = nodes.length := by
  unfold adopt
  split <;> simp

/-- Without children to add nothing changes. -/
@[simp] theorem adopt_nil (parent : Option NodeId) (nodes : List SyntaxNode) :
    adopt parent [] nodes = nodes := by
  unfold adopt
  split
  · rfl
  · simp only [List.append_nil]
    exact List.modify_id _ _

/-- Children that are added in two steps come in the order of the steps. With no parent to add them
to, neither step does anything. -/
theorem adopt_adopt (parent : Option NodeId) (ids ids' : List NodeId) (nodes : List SyntaxNode) :
    adopt parent ids' (adopt parent ids nodes) = adopt parent (ids ++ ids') nodes := by
  unfold adopt
  split
  · rfl
  · rw [List.modify_modify_eq]
    congr 1
    funext node
    simp

/-- Only the nodes that hold the parent change. So the children of a node can be added before or
after further nodes. -/
theorem adopt_append {parent : Option NodeId} {nodes : List SyntaxNode}
    (h : ∀ p : Nat, parent = some p → p < nodes.length) (ids : List NodeId)
    (more : List SyntaxNode) :
    adopt parent ids (nodes ++ more) = adopt parent ids nodes ++ more := by
  cases parent with
  | none => rfl
  | some p =>
      have hlt := h p rfl
      show (nodes ++ more).modify p _ = nodes.modify p _ ++ more
      rw [List.modify_eq_take_cons_drop (by rw [List.length_append]; omega),
        List.modify_eq_take_cons_drop hlt, List.take_append_of_le_length (Nat.le_of_lt hlt),
        List.drop_append_of_le_length hlt, List.getElem_append_left hlt]
      simp

/-- The element behind a list is changed by the position that is its length. -/
theorem modify_append_cons {α : Type} {xs : List α} {n : Nat} (h : xs.length = n) (y : α)
    (ys : List α) (f : α → α) : (xs ++ y :: ys).modify n f = xs ++ f y :: ys := by
  subst h
  rw [List.modify_eq_take_cons_drop (by simp), List.take_left, List.getElem_append_right (by simp)]
  simp

/-! ### One node -/

variable {b : TreeBuilder}

/-- The position of an opened node is the innermost one on the stack. -/
@[simp] theorem stack_start (b : TreeBuilder) (kind : NodeKind) (range : TextRange)
    (name : Option String) : (b.start kind range name).stack = b.nodes.size :: b.stack := rfl

/-- Opening a node adds it behind the others and to the children of the innermost open node. The new
node has this node as its parent, and no children so far. -/
theorem nodes_start (b : TreeBuilder) (kind : NodeKind) (range : TextRange) (name : Option String) :
    (b.start kind range name).nodes.toList =
      adopt b.stack.head? [b.nodes.size] b.nodes.toList ++
        [⟨kind, range, b.stack.head?, [], name⟩] := by
  unfold start adopt
  cases b.stack.head? with
  | none => simp
  | some p => simp

/-- Opening a node adds one node. -/
theorem size_start (b : TreeBuilder) (kind : NodeKind) (range : TextRange) (name : Option String) :
    (b.start kind range name).nodes.size = b.nodes.size + 1 := by
  rw [← Array.length_toList, nodes_start]
  simp

/-- Closing a node does not change what kind of builder it is. -/
@[simp] theorem fitting_finish (b : TreeBuilder) : b.finish.fitting = b.fitting := by
  unfold finish
  split <;> rfl

/-- Closing takes the innermost node off the stack. -/
theorem stack_finish {id : NodeId} {stack : List NodeId} (h : b.stack = id :: stack) :
    b.finish.stack = stack := by
  rw [finish, h]

/-- Closing a node gives it its final range, which is new only if the builder is a fitting one. -/
theorem nodes_finish {id : NodeId} {stack : List NodeId} (h : b.stack = id :: stack) :
    b.finish.nodes.toList = b.nodes.toList.modify id fun node =>
      { node with range := if b.fitting then fittedRange b.nodes node else node.range } := by
  rw [finish, h]
  cases b.fitting with
  | true => simp
  | false => exact (List.modify_id id b.nodes.toList).symm

/-- The final range of a node whose children stand in the arena. It is computed from the nodes at
the listed positions, which have the ranges of the trees there. -/
theorem fittedRange_eq {nodes : Array SyntaxNode} {parent : Option NodeId} {first : Nat}
    {ts : List OrderedTree} {rest : List SyntaxNode} {node : SyntaxNode}
    (hnodes : nodes.toList.drop first = numberedAll parent first ts ++ rest)
    (hchildren : node.children = roots first ts) :
    fittedRange nodes node =
      ts.foldl (fun range child => range.cover child.range) node.range := by
  -- The ranges that are read at the positions of the roots, by induction on the trees.
  have hranges : ∀ (ts : List OrderedTree) (first : Nat) (rest : List SyntaxNode),
      nodes.toList.drop first = numberedAll parent first ts ++ rest →
      ((roots first ts).filterMap (nodes[·]?)).map (·.range) = ts.map OrderedTree.range := by
    intro ts
    induction ts with
    | nil => simp
    | cons t ts ih =>
        intro first rest hdrop
        obtain ⟨kind, range, name, children⟩ := t
        obtain ⟨hnode, -, hrest⟩ :=
          @OrderedTree.drop_eq_numberedAll_cons ⟨nodes⟩ _ _ _ _ _ _ _ _ hdrop
        have hget : nodes[first]? = some _ := hnode
        rw [OrderedTree.roots_cons, OrderedTree.size_node, List.filterMap_cons, hget]
        simp only [List.map_cons]
        rw [ih _ _ hrest]
        rfl
  have hmap := congrArg (List.foldl TextRange.cover node.range) (hranges ts first rest hnodes)
  rw [List.foldl_map, List.foldl_map] at hmap
  rw [fittedRange, hchildren]
  exact hmap

/-! ### A forest -/

/-- What planting a forest does to a builder. -/
structure Plants (b : TreeBuilder) (ts : List OrderedTree) (b' : TreeBuilder) : Prop where
  fitting : b'.fitting = b.fitting
  stack : b'.stack = b.stack
  nodes : b'.nodes.toList = adopt b.stack.head? (roots b.nodes.size ts) b.nodes.toList ++
    numberedAll b.stack.head? b.nodes.size (closedAll b.fitting ts)

/-- A node over its closed children, closed in turn. A fitting builder has widened its range over
the final ranges of its children, and a plain one has left it. -/
theorem numberedAll_closedAll_node (fitting : Bool) (parent : Option NodeId) (first : Nat)
    (kind : NodeKind) (range : TextRange) (name : Option String) (ts : List OrderedTree) :
    numberedAll parent first (closedAll fitting [.node kind range name ts]) =
      { kind
        range := if fitting then
            (closedAll fitting ts).foldl (fun range child => range.cover child.range) range
          else range
        parent, children := roots (first + 1) ts, name } ::
        numberedAll (some first) (first + 1) (closedAll fitting ts) := by
  cases fitting <;> simp [OrderedTree.numbered_node, OrderedTree.fit_node]

/-- Closing a node over the forest below it. The node was opened with no children and its own
range; it gets the children while they are planted and the final range at the end. -/
theorem Plants.finish {ts : List OrderedTree} {kind : NodeKind} {range : TextRange}
    {name : Option String} {b' : TreeBuilder} (h : (b.start kind range name).Plants ts b') :
    b.Plants [.node kind range name ts] b'.finish := by
  have hstack : b'.stack = b.nodes.size :: b.stack := h.stack
  have hsize : (adopt b.stack.head? [b.nodes.size] b.nodes.toList).length = b.nodes.size := by simp
  have hfitting : b'.fitting = b.fitting := h.fitting
  have hnodes : b'.nodes.toList = adopt b.stack.head? [b.nodes.size] b.nodes.toList ++
      ⟨kind, range, b.stack.head?, roots (b.nodes.size + 1) ts, name⟩ ::
        numberedAll (some b.nodes.size) (b.nodes.size + 1) (closedAll b.fitting ts) := by
    rw [h.nodes, nodes_start, size_start, stack_start, List.head?_cons]
    rw [adopt, modify_append_cons hsize]
    simp [start]
  -- Behind the node stands what was planted under it, and nothing else yet.
  have hdrop : b'.nodes.toList.drop (b.nodes.size + 1) =
      numberedAll (some b.nodes.size) (b.nodes.size + 1) (closedAll b.fitting ts) ++ [] := by
    rw [hnodes]
    generalize adopt b.stack.head? [b.nodes.size] b.nodes.toList = nodes at hsize
    rw [← hsize, ← List.drop_drop, List.drop_left]
    simp
  -- The children have their final ranges by now.
  have hrange : fittedRange b'.nodes
      ⟨kind, range, b.stack.head?, roots (b.nodes.size + 1) ts, name⟩ =
      (closedAll b.fitting ts).foldl (fun range child => range.cover child.range) range :=
    fittedRange_eq hdrop (by simp)
  refine ⟨by rw [fitting_finish, hfitting], stack_finish hstack, ?_⟩
  rw [nodes_finish hstack, hnodes, OrderedTree.roots_cons, OrderedTree.roots_nil,
    numberedAll_closedAll_node, modify_append_cons hsize, hrange, hfitting]

/-- Planting one forest behind another. The innermost open node must be in the arena already, so
that the nodes of the second forest are not mistaken for it. -/
theorem Plants.append {ts us : List OrderedTree} {b' b'' : TreeBuilder} (h : b.Plants ts b')
    (h' : b'.Plants us b'') (hopen : ∀ p : Nat, b.stack.head? = some p → p < b.nodes.size) :
    b.Plants (ts ++ us) b'' := by
  have hsize : b'.nodes.size = b.nodes.size + sizeAll ts := by
    rw [← Array.length_toList, h.nodes]
    simp
  refine ⟨h'.fitting.trans h.fitting, h'.stack.trans h.stack, ?_⟩
  rw [h'.nodes, h.fitting, h.stack, h.nodes, hsize, adopt_append (by simpa using hopen),
    adopt_adopt, ← OrderedTree.roots_append, OrderedTree.closedAll_append,
    OrderedTree.numberedAll_append, OrderedTree.sizeAll_closedAll, List.append_assoc]

/-- Planting a forest appends its numbering, and the innermost open node gets its roots as
children. -/
theorem plants_plantAll
    (hopen : ∀ p : Nat, b.stack.head? = some p → p < b.nodes.size) (ts : List OrderedTree) :
    b.Plants ts (b.plantAll ts) := by
  induction ts using forest_induction generalizing b with
  | nil => exact ⟨by rw [plantAll_nil], by rw [plantAll_nil], by simp [plantAll_nil]⟩
  | cons kind range name children ts ihc ihr =>
      rw [plantAll_cons, plant_node]
      have hbelow := ihc (b := b.start kind range name) (by simp [size_start])
      have hnode := hbelow.finish
      -- The trees to the right are planted under the same open node, which is still in the arena.
      have hopen' : ∀ p : Nat, ((b.start kind range name).plantAll children).finish.stack.head? =
          some p → p < ((b.start kind range name).plantAll children).finish.nodes.size := by
        intro p hp
        rw [hnode.stack] at hp
        have := hopen p hp
        rw [← Array.length_toList, hnode.nodes]
        simp
        omega
      exact hnode.append (ihr hopen') hopen

/-- A tree that is handed to a fitting builder as a whole comes out fitted. Nothing is open at its
end and there is a root, so `build` has nothing to object to. -/
theorem build_plant (t : OrderedTree) :
    (plant { fitting := true } t).build = .ok t.fit.arena := by
  have h : Plants { fitting := true } [t] _ := plants_plantAll (by simp) [t]
  rw [plantAll_cons, plantAll_nil] at h
  have hnodes : (plant { fitting := true } t).nodes = (t.fit.numbered none 0).toArray := by
    apply Array.toList_inj.1
    rw [h.nodes]
    simp [adopt]
  have hstack : (plant { fitting := true } t).stack = [] := h.stack
  -- A tree has at least its root.
  have hne : (t.fit.numbered none 0).toArray.isEmpty = false := by
    cases t with
    | node kind range name children =>
        rw [OrderedTree.fit_node, OrderedTree.numbered_node]
        rfl
  rw [build, hstack, hnodes, hne]
  rfl

end TreeBuilder

end Arborist
