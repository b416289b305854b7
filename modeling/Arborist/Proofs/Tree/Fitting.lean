import Mathlib.Order.Bounds.Basic
import Arborist.Proofs.Tree.Growth

/-!
# `Arborist.Proofs.Tree.Fitting`: the ranges that a builder leaves

A fitting builder widens a node once, when it is closed, and looks at its children only. This is
enough for everything below: the range it leaves spans the range that the node was opened with and
those of all its descendants, from the least start to the greatest stop, and no more. Inverted
ranges make no difference, since starts and stops are taken apart.

`OrderedTree.spans_fit` says this of a tree, by induction from the leaves up. In the arena, the
descendants of a node are the piece behind it, and in the order of the calls, their openings are the
same piece (`exists_piece`). A plain builder changes no range with any call (`perform_plain`).
-/

set_option autoImplicit false

namespace Arborist

open OrderedTree (sizeAll fitAll forestArena StoredAllAt forest_induction preorderAll)
open BuilderCall (openings openAfter)

/-! ### Spans -/

/-- The range reaches from the least start to the greatest stop of some others. -/
structure TextRange.Spans (range : TextRange) (ranges : Set TextRange) : Prop where
  start : IsLeast (TextRange.start '' ranges) range.start
  stop : IsGreatest (TextRange.stop '' ranges) range.stop

namespace TextRange

/-- A range spans itself, even if it is inverted. -/
theorem spans_singleton (range : TextRange) : range.Spans {range} where
  start := by
    rw [Set.image_singleton]
    exact isLeast_singleton
  stop := by
    rw [Set.image_singleton]
    exact isGreatest_singleton

/-- A cover spans what its two parts span: starts and stops are compared apart, the one for the
least and the other for the greatest. -/
theorem Spans.cover {a b : TextRange} {as bs : Set TextRange} (ha : a.Spans as) (hb : b.Spans bs) :
    (a.cover b).Spans (as ∪ bs) where
  start := by
    rw [Set.image_union]
    exact ha.start.union hb.start
  stop := by
    rw [Set.image_union]
    exact ha.stop.union hb.stop

/-- Nothing that is spanned starts earlier. -/
theorem Spans.start_le {range r : TextRange} {ranges : Set TextRange} (h : range.Spans ranges)
    (hr : r ∈ ranges) : range.start ≤ r.start :=
  h.start.2 (Set.mem_image_of_mem _ hr)

/-- Nothing that is spanned ends later. -/
theorem Spans.le_stop {range r : TextRange} {ranges : Set TextRange} (h : range.Spans ranges)
    (hr : r ∈ ranges) : r.stop ≤ range.stop :=
  h.stop.2 (Set.mem_image_of_mem _ hr)

end TextRange

namespace Opening

/-- The ranges of opened nodes. -/
def ranges (opened : List (Nat × Opening)) : List TextRange := opened.map fun o => o.2.range

/-- No nodes have no ranges. -/
@[simp] theorem ranges_nil : ranges [] = [] := rfl

/-- The range of the first node comes first. -/
@[simp] theorem ranges_cons (depth : Nat) (opening : Opening) (opened : List (Nat × Opening)) :
    ranges ((depth, opening) :: opened) = opening.range :: ranges opened := rfl

/-- Ranges come in the order of the nodes. -/
@[simp] theorem ranges_append (opened opened' : List (Nat × Opening)) :
    ranges (opened ++ opened') = ranges opened ++ ranges opened' := by
  simp [ranges]

/-- There is one range for each node. -/
@[simp] theorem length_ranges (opened : List (Nat × Opening)) :
    (ranges opened).length = opened.length := by
  simp [ranges]

end Opening

open Opening (ranges)

namespace OrderedTree

/-- Covering the trees of a fitted forest one after the other spans all nodes in it. The range that
the covering starts from may already span something else, as it does after the first tree. -/
theorem spans_foldl_fitAll (depth : Nat) (ts : List OrderedTree) {range : TextRange}
    {spanned : Set TextRange} (h : range.Spans spanned) :
    ((fitAll ts).foldl (fun range child => range.cover child.range) range).Spans
      (spanned ∪ {r | r ∈ ranges (preorderAll depth ts)}) := by
  induction ts using forest_induction generalizing depth range spanned with
  | nil => simpa using h
  | cons kind own name children ts ihc ihr =>
      -- The children were fitted before, so the fold over them spans everything below.
      have hroot := ihc (depth + 1) (TextRange.spans_singleton own)
      have hts := ihr depth (h.cover hroot)
      have hunion : spanned ∪ ({own} ∪ {r | r ∈ ranges (preorderAll (depth + 1) children)}) ∪
          {r | r ∈ ranges (preorderAll depth ts)} =
            spanned ∪ {r | r ∈ ranges (preorderAll depth (node kind own name children :: ts))} := by
        ext r
        simp [or_assoc, or_left_comm]
      rw [hunion] at hts
      rw [fitAll_cons, List.foldl_cons, fit_node]
      exact hts

/-- A fitted tree spans the ranges that its nodes had before, its own and those of all nodes below,
although the builder looks at its children only. -/
theorem spans_fit (depth : Nat) (t : OrderedTree) :
    t.fit.range.Spans {r | r ∈ ranges (t.preorder depth)} := by
  obtain ⟨kind, range, name, children⟩ := t
  have hspans := spans_foldl_fitAll (depth + 1) children (TextRange.spans_singleton range)
  have hunion : {range} ∪ {r | r ∈ ranges (preorderAll (depth + 1) children)} =
      {r | r ∈ ranges ((node kind range name children).preorder depth)} := by
    ext r
    simp
  rw [hunion] at hspans
  rw [fit_node]
  exact hspans

/-! ### Pieces -/

/-- At every position of a fitted forest stands a fitted tree, and the nodes of the tree before it
was fitted are the piece of the forest that starts there. -/
theorem exists_piece {tree : SyntaxTree} {first id : Nat} (depth : Nat) {ts : List OrderedTree}
    (h : StoredAllAt tree first (fitAll ts)) (hfirst : first ≤ id)
    (hlast : id < first + sizeAll ts) :
    ∃ (u : OrderedTree) (d : Nat) (before behind : List (Nat × Opening)),
      u.fit.StoredAt tree id ∧ first + before.length = id ∧
        preorderAll depth ts = before ++ u.preorder d ++ behind := by
  have hplace := OrderedTree.places_of_lt hfirst hlast
  clear hfirst hlast
  induction hplace generalizing depth with
  | root kind range name children ts first =>
      exact ⟨_, depth, [], preorderAll depth ts, (storedAllAt_cons.1 h).1, rfl, by simp⟩
  | @under kind range name children ts first id hplace ih =>
      have hroot := (storedAllAt_cons.1 h).1
      rw [fit_node] at hroot
      obtain ⟨u, d, before, behind, hu, hid, hpiece⟩ := ih (depth + 1) (storedAt_node.1 hroot).2
      -- The first root comes before everything below it.
      refine ⟨u, d, (depth, ⟨kind, range, name⟩) :: before, behind ++ preorderAll depth ts, hu,
        ?_, ?_⟩
      · rw [List.length_cons]
        omega
      · rw [preorderAll_cons, preorder_node, hpiece]
        simp
  | @right t ts first id hplace ih =>
      have hts := (storedAllAt_cons.1 h).2
      rw [size_fit] at hts
      obtain ⟨u, d, before, behind, hu, hid, hpiece⟩ := ih depth hts
      refine ⟨u, d, t.preorder depth ++ before, behind, hu, ?_, ?_⟩
      · rw [List.length_append, length_preorder]
        omega
      · rw [preorderAll_cons, hpiece]
        simp

/-- The same for the whole arena, where the position of a node is the number of nodes that were
opened before it. -/
theorem exists_piece_forestArena {ts : List OrderedTree} {id : Nat} {node : SyntaxNode}
    (hnode : (forestArena (fitAll ts)).node? id = some node) :
    ∃ (u : OrderedTree) (d : Nat) (before behind : List (Nat × Opening)),
      u.fit.StoredAt (forestArena (fitAll ts)) id ∧ before.length = id ∧
        preorderAll 0 ts = before ++ u.preorder d ++ behind := by
  have hid := SyntaxTree.lt_size_of_node? hnode
  rw [size_forestArena, sizeAll_fitAll] at hid
  obtain ⟨u, d, before, behind, hu, hbefore, hpiece⟩ :=
    exists_piece 0 (storedAllAt_forestArena (fitAll ts)) (Nat.zero_le id) (by omega)
  exact ⟨u, d, before, behind, hu, by omega, hpiece⟩

end OrderedTree

namespace SyntaxTree

/-- `j` is the node `id` or has it as an ancestor. -/
def InSubtree (tree : SyntaxTree) (id j : NodeId) : Prop :=
  j = id ∨ ∃ chain, tree.ancestors? j = some chain ∧ id ∈ chain

/-- The subtree of a node is the piece that starts with it. The definition goes up the parent links;
the piece is what is found in the arena. -/
theorem inSubtree_iff {ts : List OrderedTree} {u : OrderedTree} {id j : Nat}
    (hu : u.StoredAt (forestArena ts) id) (hj : j < (forestArena ts).size) :
    (forestArena ts).InSubtree id j ↔ id ≤ j ∧ j < id + u.size := by
  obtain ⟨chain, hchain, hmem⟩ := mem_ancestors_forestArena ts hj
  have hpos := u.size_pos
  have hancestor : (∃ chain, (forestArena ts).ancestors? j = some chain ∧ id ∈ chain) ↔
      id < j ∧ j < id + u.size := by
    rw [← below_iff hu, ← hmem, hchain]
    simp
  rw [InSubtree, hancestor]
  constructor
  · rintro (rfl | hbelow)
    · omega
    · omega
  · intro hpiece
    rcases Nat.eq_or_lt_of_le hpiece.1 with heq | hlt
    · exact .inl heq.symm
    · exact .inr ⟨hlt, hpiece.2⟩

end SyntaxTree

/-- What stands in the middle of a list is read between its ends, at the positions from the length
of the first part on. -/
theorem mem_middle_iff {α : Type} (before middle behind : List α) (a : α) :
    a ∈ middle ↔ ∃ j, before.length ≤ j ∧ j < before.length + middle.length ∧
      (before ++ middle ++ behind)[j]? = some a := by
  -- A position in the middle, counted from its start.
  have hread : ∀ i < middle.length,
      (before ++ middle ++ behind)[before.length + i]? = middle[i]? := by
    intro i hi
    rw [List.append_assoc, List.getElem?_append_right (by omega),
      List.getElem?_append_left (by omega), Nat.add_sub_cancel_left]
  constructor
  · intro ha
    obtain ⟨i, hi, hget⟩ := List.mem_iff_getElem.1 ha
    refine ⟨before.length + i, by omega, by omega, ?_⟩
    rw [hread i hi, List.getElem?_eq_getElem hi, hget]
  · rintro ⟨j, hfirst, hlast, hget⟩
    obtain ⟨i, rfl⟩ := Nat.exists_eq_add_of_le hfirst
    rw [hread i (by omega)] at hget
    exact List.mem_of_getElem? hget

/-! ### What is left -/

/-- The ranges that calls open nodes with, in order. -/
def BuilderCall.openedRanges (calls : List BuilderCall) : List TextRange :=
  ranges (openings 0 calls)

open BuilderCall (openedRanges)

namespace SyntaxTree

/-- The nodes span what they and their descendants were opened with. -/
structure FittedTo (opened : List TextRange) (tree : SyntaxTree) : Prop where
  size : tree.size = opened.length
  spans : ∀ id node, tree.node? id = some node →
    node.range.Spans {range | ∃ j, tree.InSubtree id j ∧ opened[j]? = some range}
  nested : ∀ length parent parentRange child childRange,
    tree.validate length ≠ .error (.childOutsideParent parent parentRange child childRange)
  ordered : (∀ range ∈ opened, range.start ≤ range.stop) →
    ∀ node ∈ tree.nodes, node.range.start ≤ node.range.stop
  bounded : ∀ length, (∀ range ∈ opened, range.stop ≤ length) →
    ∀ node ∈ tree.nodes, node.range.stop ≤ length

/-- A node of a fitted forest spans what it and its descendants were before. The piece of openings
that belongs to the tree at this node is read at the positions of its subtree. -/
theorem spans_forestArena {ts : List OrderedTree} {id : Nat} {node : SyntaxNode}
    (hnode : (forestArena (fitAll ts)).node? id = some node) :
    node.range.Spans {range | ∃ j, (forestArena (fitAll ts)).InSubtree id j ∧
      (ranges (preorderAll 0 ts))[j]? = some range} := by
  obtain ⟨u, d, before, behind, hu, rfl, hpiece⟩ := OrderedTree.exists_piece_forestArena hnode
  obtain ⟨node', hnode', hrange⟩ := hu.node?_range
  cases hnode.symm.trans hnode'
  have hset : {range | range ∈ ranges (u.preorder d)} =
      {range | ∃ j, (forestArena (fitAll ts)).InSubtree before.length j ∧
        (ranges (preorderAll 0 ts))[j]? = some range} := by
    ext range
    -- A place that can be read is a node of the arena.
    have hin : ∀ j : Nat, (ranges (preorderAll 0 ts))[j]? = some range →
        ((forestArena (fitAll ts)).InSubtree before.length j ↔
          before.length ≤ j ∧ j < before.length + u.size) := by
      intro j hj
      have hlt := (List.getElem?_eq_some_iff.1 hj).1
      rw [inSubtree_iff hu (by simpa using hlt), OrderedTree.size_fit]
    have hmem := mem_middle_iff (ranges before) (ranges (u.preorder d)) (ranges behind) range
    simp only [← Opening.ranges_append, ← hpiece, Opening.length_ranges,
      OrderedTree.length_preorder] at hmem
    constructor
    · intro hrange
      obtain ⟨j, hfirst, hlast, hj⟩ := hmem.1 hrange
      exact ⟨j, (hin j hj).2 ⟨hfirst, hlast⟩, hj⟩
    · rintro ⟨j, hsub, hj⟩
      obtain ⟨hfirst, hlast⟩ := (hin j hj).1 hsub
      exact hmem.2 ⟨j, hfirst, hlast, hj⟩
  rw [← hset, hrange]
  exact OrderedTree.spans_fit d u

/-- The node spans in particular its own range. With it, a range that was not inverted when it was
opened is not inverted afterwards. -/
theorem exists_own_range {ts : List OrderedTree} {id : Nat} {node : SyntaxNode}
    (hnode : (forestArena (fitAll ts)).node? id = some node) :
    ∃ range ∈ ranges (preorderAll 0 ts),
      node.range.start ≤ range.start ∧ range.stop ≤ node.range.stop := by
  have hspans := spans_forestArena hnode
  have hid : id < (ranges (preorderAll 0 ts)).length := by
    simpa using lt_size_of_node? hnode
  have hown : (ranges (preorderAll 0 ts))[id]? = some _ := List.getElem?_eq_getElem hid
  exact ⟨_, List.getElem_mem hid, hspans.start_le ⟨id, .inl rfl, hown⟩,
    hspans.le_stop ⟨id, .inl rfl, hown⟩⟩

/-- A fitted forest is fitted to the ranges that its nodes had before. Children lie inside their
parents because fitting covers them, and the other two facts follow from what the nodes span. -/
theorem fittedTo_forestArena (t : OrderedTree) (ts : List OrderedTree) :
    (forestArena (fitAll (t :: ts))).FittedTo (ranges (preorderAll 0 (t :: ts))) where
  size := by simp
  spans id node hnode := spans_forestArena hnode
  nested length parent parentRange child childRange h := by
    rw [OrderedTree.fitAll_cons] at h
    rcases of_validate_forestArena h with ⟨_, _, hne⟩ | ⟨_, _, hne⟩ |
      ⟨id, node, hnode, child', hchild, childNode, hread, houtside, -⟩ | ⟨_, _, _, hne⟩ |
      ⟨-, _, hne⟩
    case inr.inr.inl =>
      -- The node is the root of a fitted tree, which contains its children.
      rw [← OrderedTree.fitAll_cons] at hnode hread
      obtain ⟨u, -, -, -, hu, -, -⟩ := OrderedTree.exists_piece_forestArena hnode
      have hinside := hu.contains_child u.contains_child_fit hnode hchild hread
      rw [houtside] at hinside
      cases hinside
    all_goals cases hne
  ordered hopened node hnode := by
    obtain ⟨id, hid, rfl⟩ := Array.mem_iff_getElem.1 hnode
    obtain ⟨range, hrange, hstart, hstop⟩ := exists_own_range (Array.getElem?_eq_getElem hid)
    exact Nat.le_trans hstart (Nat.le_trans (hopened range hrange) hstop)
  bounded length hopened node hnode := by
    obtain ⟨id, hid, rfl⟩ := Array.mem_iff_getElem.1 hnode
    -- The greatest stop is the stop of one of the ranges.
    have hspans := spans_forestArena (Array.getElem?_eq_getElem hid)
    obtain ⟨range, ⟨j, -, hj⟩, hstop⟩ := hspans.stop.1
    rw [← hstop]
    exact hopened range (List.mem_of_getElem? hj)

end SyntaxTree

namespace TreeBuilder

/-- Opening a node changes no range. The node that gets a new child keeps its own, and the new one
comes behind all others. -/
theorem map_range_start (b : TreeBuilder) (kind : NodeKind) (range : TextRange)
    (name : Option String) :
    (b.start kind range name).nodes.toList.map (·.range) =
      b.nodes.toList.map (·.range) ++ [range] := by
  -- A node that gets children keeps its range.
  have hadopt : ∀ (parent : Option NodeId) (ids : List NodeId) (nodes : List SyntaxNode),
      (adopt parent ids nodes).map (·.range) = nodes.map (·.range) := by
    intro parent ids nodes
    unfold adopt
    split
    · rfl
    · apply List.ext_getElem?
      intro i
      simp only [List.getElem?_map, List.getElem?_modify]
      split <;> cases nodes[i]? <;> rfl
  rw [nodes_start, List.map_append, hadopt]
  rfl

/-- Closing a node of a plain builder changes no node. -/
theorem nodes_finish_plain {b : TreeBuilder} (h : b.fitting = false) :
    b.finish.nodes = b.nodes := by
  unfold finish
  split
  · rfl
  · simp [h]

/-- One call of a plain builder: it stays plain, and the ranges in it are those from before with the
one that the call opens, if it opens one. -/
theorem perform_plain {b : TreeBuilder} (h : b.fitting = false) (call : BuilderCall) :
    (b.perform call).fitting = false ∧
      (b.perform call).nodes.toList.map (·.range) =
        b.nodes.toList.map (·.range) ++ (call.opening?.map (·.range)).toList := by
  cases call with
  | start opening => exact ⟨h, map_range_start b _ _ _⟩
  | leaf opening =>
      refine ⟨(fitting_finish _).trans h, ?_⟩
      rw [perform, leaf, nodes_finish_plain (b := b.start _ _ _) h]
      exact map_range_start b _ _ _
  -- Closing a node of a plain builder touches no node.
  | finish =>
      refine ⟨(fitting_finish _).trans h, ?_⟩
      rw [perform, nodes_finish_plain h]
      exact (List.append_nil _).symm

/-- A plain builder holds the ranges of the calls, finished or not. The depth does not matter, as
ranges are listed without it. -/
theorem map_range_run {b : TreeBuilder} (h : b.fitting = false) (depth : Nat)
    (calls : List BuilderCall) :
    (b.run calls).nodes.toList.map (·.range) =
      b.nodes.toList.map (·.range) ++ ranges (openings depth calls) := by
  induction calls generalizing b depth with
  | nil => simp [run, openings]
  | cons call calls ih =>
      obtain ⟨hplain, hranges⟩ := perform_plain h call
      rw [run, List.foldl_cons, ← run, ih hplain (call.depthAfter depth), hranges, openings,
        Opening.ranges_append, List.append_assoc]
      cases call.opening? <;> rfl

/-- Whatever calls a fitting builder takes, if they make a tree then the range of each node runs
from the least start to the greatest stop among the ranges that it and its descendants were opened
with. So the validation never finds a child outside its parent, and ranges that are not inverted and
stay inside the source remain so. A plain builder leaves every range as it was opened. -/
theorem ranges_after_run (calls : List BuilderCall) :
    (∀ tree, (run { fitting := true } calls).build = .ok tree →
      tree.FittedTo (openedRanges calls)) ∧
    (run {} calls).nodes.toList.map (·.range) = openedRanges calls := by
  constructor
  · intro tree hbuild
    obtain ⟨hclosed, hopened, rfl⟩ := (build_run_eq_ok_iff true).1 hbuild
    obtain ⟨ts, hopenings, hnodes⟩ := exists_forest_of_run true hclosed
    rw [hnodes, openedRanges, ← hopenings]
    cases ts with
    | nil => exact absurd hopenings.symm hopened
    | cons t ts => exact SyntaxTree.fittedTo_forestArena t ts
  · exact map_range_run rfl 0 calls

end TreeBuilder

end Arborist
