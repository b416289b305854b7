import Arborist.Proofs.Tree.Validate

/-!
# `Arborist.Proofs.Tree.Navigation`: subtrees and ancestors in the arena of a forest

In the arena of ordered trees the subtree of a node is a contiguous piece that starts with the
node. `subtreeEnd?` finds its end by going to the last child again and again (`subtreeEnd?_eq`), and
`ancestors?` goes up the parent links. The two agree: `a` is an ancestor of `id` exactly if `id`
lies behind `a` and before the end of its subtree (`mem_ancestors_iff`).

`Places` finds a node in a forest, and what holds at every node goes by induction on it. The pieces
of two nodes are nested or disjoint. Two facts say so in the form that is needed: a piece
inside another ends inside it (`exists_storedAt`), and what stands to the left of a child, among the
children of the same node, ends before it (`end_le_of_lt_root`).
-/

set_option autoImplicit false

namespace Arborist

open OrderedTree (roots sizeAll StoredAllAt forest_induction sizeAll_nil sizeAll_cons size_node
  roots_cons storedAllAt_nil storedAllAt_cons storedAt_node mem_roots_bounds)

namespace OrderedTree

/-- A tree is stored as the forest with this tree only. -/
theorem storedAllAt_singleton {tree : SyntaxTree} {first : Nat} {t : OrderedTree} :
    StoredAllAt tree first [t] ↔ t.StoredAt tree first := by
  rw [storedAllAt_cons]
  exact and_iff_left (storedAllAt_nil tree _)

/-- What is stored fits into the arena. Each of its nodes can be read there, so an empty forest is
the only one that needs the condition on `first`. -/
theorem StoredAllAt.le_size {tree : SyntaxTree} {first : Nat} {ts : List OrderedTree}
    (h : StoredAllAt tree first ts) (hfirst : first ≤ tree.size) :
    first + sizeAll ts ≤ tree.size := by
  induction ts using forest_induction generalizing first with
  | nil => simpa using hfirst
  | cons kind range name children ts ihc ihr =>
      rw [storedAllAt_cons, storedAt_node, size_node] at h
      obtain ⟨⟨⟨parent, hnode⟩, hchildren⟩, hts⟩ := h
      have hbelow := ihc hchildren (SyntaxTree.lt_size_of_node? hnode)
      have hright := ihr hts (by omega)
      rw [sizeAll_cons, size_node]
      omega

/-- A stored tree fits into the arena. Its root is there, so nothing else has to be known of its
position. -/
theorem StoredAt.le_size {tree : SyntaxTree} {id : Nat} {t : OrderedTree}
    (h : t.StoredAt tree id) : id + t.size ≤ tree.size := by
  cases t with
  | node kind range name children =>
      obtain ⟨⟨parent, hnode⟩, hchildren⟩ := storedAt_node.1 h
      have hbelow := hchildren.le_size (SyntaxTree.lt_size_of_node? hnode)
      rw [size_node]
      omega

/-- `id` is the number of a node in a forest that is numbered from `first`: of the first root, of a
node below it, or of one in the trees to its right. -/
inductive Places : List OrderedTree → Nat → Nat → Prop
  | root (kind : NodeKind) (range : TextRange) (name : Option String)
      (children ts : List OrderedTree) (first : Nat) :
      Places (.node kind range name children :: ts) first first
  | under {kind : NodeKind} {range : TextRange} {name : Option String}
      {children ts : List OrderedTree} {first id : Nat} (h : Places children (first + 1) id) :
      Places (.node kind range name children :: ts) first id
  | right {t : OrderedTree} {ts : List OrderedTree} {first id : Nat}
      (h : Places ts (first + t.size) id) : Places (t :: ts) first id

/-- Every number in the range of a forest is that of one of its nodes. With this, statements about
positions go by induction on `Places`, where the three cases are at hand. -/
theorem places_of_lt {ts : List OrderedTree} {first id : Nat} (hfirst : first ≤ id)
    (hlast : id < first + sizeAll ts) : Places ts first id := by
  induction ts using forest_induction generalizing first with
  | nil =>
      rw [sizeAll_nil] at hlast
      omega
  | cons kind range name children ts ihc ihr =>
      rw [sizeAll_cons, size_node] at hlast
      rcases Nat.eq_or_lt_of_le hfirst with rfl | hlt
      · exact .root kind range name children ts first
      · -- The numbers below the first root end where those of the next tree begin.
        rcases Nat.lt_or_ge id (first + (sizeAll children + 1)) with hbelow | hright
        · exact .under (ihc hlt (by omega))
        · refine .right (ihr ?_ ?_)
          · rwa [size_node]
          · rw [size_node]
            omega

/-- Every position of a stored forest holds a tree, which ends inside the forest: pieces of the
arena do not overlap halfway. -/
theorem StoredAllAt.exists_storedAt {tree : SyntaxTree} {first id : Nat} {ts : List OrderedTree}
    (h : StoredAllAt tree first ts) (hfirst : first ≤ id) (hlast : id < first + sizeAll ts) :
    ∃ t : OrderedTree, t.StoredAt tree id ∧ id + t.size ≤ first + sizeAll ts := by
  have hplace := places_of_lt hfirst hlast
  -- The induction is on the way to the place: at a root, below it, or to the right of it.
  clear hfirst hlast
  induction hplace with
  | root kind range name children ts first =>
      refine ⟨_, (storedAllAt_cons.1 h).1, ?_⟩
      rw [sizeAll_cons]
      omega
  | under hplace ih =>
      obtain ⟨t, ht, hend⟩ := ih (storedAt_node.1 (storedAllAt_cons.1 h).1).2
      refine ⟨t, ht, ?_⟩
      rw [sizeAll_cons, size_node]
      omega
  | right hplace ih =>
      obtain ⟨t, ht, hend⟩ := ih (storedAllAt_cons.1 h).2
      refine ⟨t, ht, ?_⟩
      rw [sizeAll_cons]
      omega

/-- To the left of a root of a stored forest, every tree ends before that root. The trees to the
left of it do, and what starts inside one of them ends inside it. -/
theorem StoredAllAt.end_le_of_lt_root {tree : SyntaxTree} {first id root : Nat}
    {ts : List OrderedTree} (h : StoredAllAt tree first ts) (hroot : root ∈ roots first ts)
    (hfirst : first ≤ id) (hlt : id < root) :
    ∃ t : OrderedTree, t.StoredAt tree id ∧ id + t.size ≤ root := by
  induction ts generalizing first with
  | nil => simp at hroot
  | cons t ts ih =>
      obtain ⟨ht, hts⟩ := storedAllAt_cons.1 h
      rw [roots_cons] at hroot
      rcases List.mem_cons.1 hroot with rfl | hroot
      · -- Nothing is to the left of the first root.
        omega
      · have hbounds := mem_roots_bounds hroot
        rcases Nat.lt_or_ge id (first + t.size) with hinside | hright
        · obtain ⟨u, hu, hend⟩ := (storedAllAt_singleton.2 ht).exists_storedAt hfirst
            (by simpa using hinside)
          rw [sizeAll_cons, sizeAll_nil] at hend
          exact ⟨u, hu, by omega⟩
        · exact ih hts hroot hright

/-- A position of a stored forest is one of its roots, or a child of a node stored there. There is
no third way to be in a forest, so every node but the roots has a parent that lists it. -/
theorem StoredAllAt.root_or_child {tree : SyntaxTree} {first id : Nat} {ts : List OrderedTree}
    (h : StoredAllAt tree first ts) (hfirst : first ≤ id) (hlast : id < first + sizeAll ts) :
    id ∈ roots first ts ∨ ∃ (q : Nat) (kind : NodeKind) (range : TextRange)
      (name : Option String) (children : List OrderedTree),
      (node kind range name children).StoredAt tree q ∧ id ∈ roots (q + 1) children := by
  have hplace := places_of_lt hfirst hlast
  clear hfirst hlast
  induction hplace with
  | root kind range name children ts first => exact .inl (by simp)
  | @under kind range name children ts first id hplace ih =>
      have hroot := (storedAllAt_cons.1 h).1
      rcases ih (storedAt_node.1 hroot).2 with hchild | hdeeper
      · -- A root of the forest below is a child of the node above it.
        exact .inr ⟨first, kind, range, name, children, hroot, hchild⟩
      · exact .inr hdeeper
  | right hplace ih =>
      rcases ih (storedAllAt_cons.1 h).2 with hchild | hdeeper
      · exact .inl (by simp [hchild])
      · exact .inr hdeeper

/-- From the last root of a stored forest, going to the last child again and again ends at the last
node of the forest. -/
theorem StoredAllAt.lastDescendant? {tree : SyntaxTree} {first steps last : Nat}
    {ts : List OrderedTree} (h : StoredAllAt tree first ts)
    (hlast : (roots first ts).getLast? = some last) (hsteps : sizeAll ts ≤ steps) :
    tree.lastDescendant? steps last = some (first + sizeAll ts - 1) := by
  induction ts using forest_induction generalizing first steps last with
  | nil => simp at hlast
  | cons kind range name children ts ihc ihr =>
      rw [sizeAll_cons, size_node] at hsteps ⊢
      rw [storedAllAt_cons, storedAt_node, size_node] at h
      obtain ⟨⟨⟨parent, hnode⟩, hchildren⟩, hts⟩ := h
      rw [roots_cons, size_node] at hlast
      cases ts with
      | cons t ts =>
          -- The last root stands to the right.
          have hright := ihr hts (by simpa using hlast) (show sizeAll (t :: ts) ≤ steps by omega)
          rw [hright]
          congr 1
          omega
      | nil =>
          -- The last root is the only one.
          obtain rfl : first = last := by simpa using hlast
          obtain ⟨steps, rfl⟩ : ∃ n, steps = n + 1 := ⟨steps - 1, by omega⟩
          rw [SyntaxTree.lastDescendant?, hnode]
          cases hroots : (roots (first + 1) children).getLast? with
          | none =>
              have hnil : children = [] := by
                rw [List.getLast?_eq_none_iff] at hroots
                have hlength := length_roots (first + 1) children
                rw [hroots] at hlength
                exact List.length_eq_zero_iff.1 hlength.symm
              simp [hnil]
          | some child =>
              have hbelow := ihc hchildren hroots (show sizeAll children ≤ steps by omega)
              simp only [Option.bind_eq_bind, Option.bind_some, hroots, hbelow, sizeAll_nil,
                Option.some.injEq]
              omega

end OrderedTree

namespace SyntaxTree

open OrderedTree

/-- The subtree of a node ends as many positions behind it as it has nodes. The number of steps that
`subtreeEnd?` allows is the size of the arena, which is enough for any tree in it. -/
theorem subtreeEnd?_eq {tree : SyntaxTree} {id : Nat} {t : OrderedTree}
    (h : t.StoredAt tree id) : tree.subtreeEnd? id = some (id + t.size) := by
  have hsize := h.le_size
  have hpos := t.size_pos
  have hall := storedAllAt_singleton.2 h
  rw [subtreeEnd?, hall.lastDescendant? (by simp) (by rw [sizeAll_cons, sizeAll_nil]; omega),
    Option.map_some, sizeAll_cons, sizeAll_nil]
  congr 1
  omega

/-- At every position of the arena of a forest a tree is stored. -/
theorem exists_storedAt_forestArena (ts : List OrderedTree) {id : Nat}
    (hid : id < (forestArena ts).size) : ∃ u : OrderedTree, u.StoredAt (forestArena ts) id := by
  rw [size_forestArena] at hid
  obtain ⟨u, hu, -⟩ := (storedAllAt_forestArena ts).exists_storedAt (Nat.zero_le id)
    (by simpa using hid)
  exact ⟨u, hu⟩

/-- In a forest, every subtree ends behind its root and inside the arena. -/
theorem exists_subtreeEnd_forestArena (ts : List OrderedTree) {id : Nat}
    (hid : id < (forestArena ts).size) : ∃ stop, (forestArena ts).subtreeEnd? id = some stop ∧
      id < stop ∧ stop ≤ (forestArena ts).size := by
  obtain ⟨u, hu⟩ := exists_storedAt_forestArena ts hid
  have hpos := u.size_pos
  exact ⟨id + u.size, subtreeEnd?_eq hu, by omega, hu.le_size⟩

/-- The same for the arena of one tree. -/
theorem exists_storedAt_arena (t : OrderedTree) {id : Nat} (hid : id < t.arena.size) :
    ∃ u : OrderedTree, u.StoredAt t.arena id := by
  rw [arena_eq_forestArena] at hid ⊢
  exact exists_storedAt_forestArena [t] hid

/-- `id` lies in the subtree of `a`, behind `a` itself. -/
def Below (tree : SyntaxTree) (a id : Nat) : Prop :=
  a < id ∧ ∃ stop, tree.subtreeEnd? a = some stop ∧ id < stop

/-- Below a node lie the positions of its tree behind the first one. -/
theorem below_iff {tree : SyntaxTree} {a id : Nat} {t : OrderedTree} (h : t.StoredAt tree a) :
    tree.Below a id ↔ a < id ∧ id < a + t.size := by
  rw [Below, subtreeEnd?_eq h]
  simp

/-- What lies below a node that lies below another lies below the other. The middle piece ends
inside the outer one. -/
theorem Below.trans {tree : SyntaxTree} {a b id : Nat} {t : OrderedTree}
    (ht : t.StoredAt tree a) (hab : tree.Below a b) (hb : tree.Below b id) : tree.Below a id := by
  rw [below_iff ht] at hab ⊢
  obtain ⟨u, hu, hend⟩ := (storedAllAt_singleton.2 ht).exists_storedAt (Nat.le_of_lt hab.1)
    (by simpa using hab.2)
  rw [sizeAll_cons, sizeAll_nil] at hend
  rw [below_iff hu] at hb
  omega

/-- Each node of a forest is a root and below nothing, or it is listed by its parent, and lies below
the parent and whatever the parent lies below, and below nothing else. -/
theorem root_or_parent (ts : List OrderedTree) {id : Nat} (hid : id < (forestArena ts).size) :
    ∃ node, (forestArena ts).node? id = some node ∧
      ((node.parent = none ∧ ∀ a, ¬ (forestArena ts).Below a id) ∨
        ∃ q < id, node.parent = some q ∧
          ∀ a, (forestArena ts).Below a id ↔ a = q ∨ (forestArena ts).Below a q) := by
  have hall := storedAllAt_forestArena ts
  have hlast : id < 0 + sizeAll ts := by simpa using hid
  rcases hall.root_or_child (Nat.zero_le id) hlast with hroot | hchild
  · obtain ⟨node, hnode, hparent⟩ := root_forestArena ts hroot
    refine ⟨node, hnode, .inl ⟨hparent, fun a ha => ?_⟩⟩
    -- What stands to the left of a root ends before it.
    obtain ⟨u, hu, hend⟩ := hall.end_le_of_lt_root hroot (Nat.zero_le a) ha.1
    rw [below_iff hu] at ha
    omega
  · obtain ⟨q, kind, range, name, children, hq, hmem⟩ := hchild
    obtain ⟨⟨parent, hqnode⟩, hbelow⟩ := storedAt_node.1 hq
    obtain ⟨node, hnode, hparent⟩ := linked_forestArena ts q _ hqnode id hmem
    have hbounds := mem_roots_bounds hmem
    have hqid : (forestArena ts).Below q id := by
      rw [below_iff hq, size_node]
      omega
    refine ⟨node, hnode, .inr ⟨q, by omega, hparent, fun a => ⟨fun ha => ?_, ?_⟩⟩⟩
    · obtain ⟨u, hu⟩ := exists_storedAt_forestArena ts (Nat.lt_trans ha.1 hid)
      rcases Nat.lt_trichotomy a q with hlt | heq | hgt
      · -- `a` comes before `q`, and its subtree reaches past it.
        rw [below_iff hu] at ha ⊢
        exact .inr (by omega)
      · exact .inl heq
      · -- `a` stands between `q` and its child `id`, so its subtree ends before `id`.
        obtain ⟨v, hv, hend⟩ := hbelow.end_le_of_lt_root hmem hgt ha.1
        rw [below_iff hv] at ha
        omega
    · rintro (rfl | ha)
      · exact hqid
      · obtain ⟨u, hu⟩ := exists_storedAt_forestArena ts
          (Nat.lt_trans ha.1 (SyntaxTree.lt_size_of_node? hqnode))
        exact ha.trans hu hqid

/-- Going up the parent links meets exactly the nodes whose subtrees hold `id`. The induction is on
`id`, since parents have smaller numbers. -/
theorem parentChain?_eq_some (ts : List OrderedTree) {id steps : Nat}
    (hid : id < (forestArena ts).size) (hsteps : id < steps) :
    ∃ chain, (forestArena ts).parentChain? steps id = some chain ∧
      ∀ a : Nat, a ∈ chain ↔ (forestArena ts).Below a id := by
  induction id using Nat.strongRecOn generalizing steps with
  | ind id ih =>
      obtain ⟨steps, rfl⟩ : ∃ n, steps = n + 1 := ⟨steps - 1, by omega⟩
      rw [parentChain?]
      obtain ⟨node, hnode, ⟨hparent, hbelow⟩ | ⟨q, hlt, hparent, hbelow⟩⟩ := root_or_parent ts hid
      · -- A root has no parent and is below nothing.
        refine ⟨[], by simp [hnode, hparent], fun a => ?_⟩
        simp [hbelow a]
      · obtain ⟨chain, hchain, hmem⟩ := ih q hlt (Nat.lt_trans hlt hid)
          (show q < steps by omega)
        refine ⟨q :: chain, by simp [hnode, hparent, hchain], fun a => ?_⟩
        rw [hbelow, List.mem_cons, hmem]

/-- In a forest, ancestors are the nodes whose subtrees hold the node. The number of steps that
`ancestors?` allows is enough, since each goes to a smaller number. -/
theorem mem_ancestors_forestArena (ts : List OrderedTree) {id : Nat}
    (hid : id < (forestArena ts).size) :
    ∃ chain, (forestArena ts).ancestors? id = some chain ∧
      ∀ a : Nat, a ∈ chain ↔ (forestArena ts).Below a id :=
  parentChain?_eq_some ts hid (by omega)

/-- The same in a valid tree. -/
theorem mem_ancestors_iff {tree : SyntaxTree} {length id : Nat}
    (hvalid : tree.validate length = .ok ()) (hid : id < tree.size) :
    ∃ chain, tree.ancestors? id = some chain ∧ ∀ a : Nat, a ∈ chain ↔ tree.Below a id := by
  obtain ⟨t, rfl⟩ := eq_arena_of_validate hvalid
  rw [arena_eq_forestArena] at hid ⊢
  exact mem_ancestors_forestArena [t] hid

/-- On a valid tree the parent of a node comes before it, as in every pre-order numbering. So going
up the parent links comes to an end. -/
theorem parent_lt {tree : SyntaxTree} {length : Nat} (hvalid : tree.validate length = .ok ())
    {id up : NodeId} {node : SyntaxNode} (hnode : tree.node? id = some node)
    (hup : node.parent = some up) : up < id := by
  obtain ⟨t, rfl⟩ := eq_arena_of_validate hvalid
  rw [OrderedTree.arena_eq_forestArena] at hnode
  obtain ⟨found, hfound, hplace⟩ := root_or_parent [t] (lt_size_of_node? hnode)
  obtain rfl : node = found := Option.some.inj (hnode.symm.trans hfound)
  rcases hplace with ⟨hroot, -⟩ | ⟨q, hlt, hq, -⟩
  · rw [hroot] at hup
    cases hup
  · rw [hq] at hup
    exact Option.some.inj hup ▸ hlt

end SyntaxTree

end Arborist
