import Arborist.Proofs.Tree.Navigation
import Arborist.Rules.LengthComparison

/-!
# `Arborist.Proofs.Rules.Reading`: what rules read off a tree

A rule reads nodes one by one and breaks down at a link that leads nowhere, so on its way it sees a
part of what a node has. `childNodes`, `operands` and `ancestorNodes` are all of it. This module
compares the two.

On any arena, what was read is the beginning of what there is (`eq_take_operands_of_takeOperands`).
On a valid one every link leads to a node (`readable_children`, `readable_parent`) and the way up
ends at the root, so reading always succeeds and answers as if everything had been read:
`findNode_children_eq`, `takeOperands_children_eq` and `standsInMarked_eq`.
-/

set_option autoImplicit false

namespace Arborist

/-- A computation of two steps succeeds if both do. -/
theorem bind_eq_ok_iff {ε α β : Type} {x : Except ε α} {f : α → Except ε β} {b : β} :
    x >>= f = .ok b ↔ ∃ a, x = .ok a ∧ f a = .ok b := by
  cases x <;> simp [bind, Except.bind]

namespace SyntaxTree

/-- The children of a node without attributes and doc comments. -/
def operands (tree : SyntaxTree) (node : SyntaxNode) : List SyntaxNode :=
  (tree.childNodes node).filter fun child => child.kind ≠ .attr && child.kind ≠ .docComment

/-- Reading a position succeeds exactly if there is a node. -/
theorem read_eq_ok_iff {tree : SyntaxTree} {id : NodeId} {node : SyntaxNode} :
    tree.read id = .ok node ↔ tree.node? id = some node := by
  rw [read]
  cases tree.node? id <;> simp

/-- The operands that were read are the first ones. The induction follows the positions; one that is
no operand does not count. -/
theorem eq_take_of_takeOperands {tree : SyntaxTree} {count : Nat} {ids : List NodeId}
    {found : List SyntaxNode} (h : tree.takeOperands count ids = .ok found) :
    found = ((ids.filterMap tree.node?).filter (·.isOperand)).take count := by
  induction ids generalizing count found with
  | nil => cases count <;> · cases h; rfl
  | cons id ids ih =>
      -- Nothing is read any more once enough operands are found.
      cases count with
      | zero =>
          cases h
          rfl
      | succ count =>
          obtain ⟨node, hread, h⟩ := bind_eq_ok_iff.1 h
          rw [List.filterMap_cons_some (read_eq_ok_iff.1 hread)]
          split at h
          · rename_i hoperand
            obtain ⟨rest, hrest, h⟩ := bind_eq_ok_iff.1 h
            cases h
            rw [List.filter_cons_of_pos hoperand, List.take_succ_cons, ih hrest]
          · rename_i hoperand
            rw [List.filter_cons_of_neg hoperand]
            exact ih h

/-- For the children of a node these are its first operands, on any arena. -/
theorem eq_take_operands_of_takeOperands {tree : SyntaxTree} {count : Nat} {node : SyntaxNode}
    {found : List SyntaxNode} (h : tree.takeOperands count node.children = .ok found) :
    found = (tree.operands node).take count :=
  eq_take_of_takeOperands h

/-! ### Valid trees -/

/-- Every position of the list is that of a node. -/
def Readable (tree : SyntaxTree) (ids : List NodeId) : Prop :=
  ∀ id ∈ ids, ∃ node, tree.node? id = some node

/-- The first position and the others can be read. -/
theorem Readable.of_cons {tree : SyntaxTree} {id : NodeId} {ids : List NodeId}
    (h : tree.Readable (id :: ids)) :
    (∃ node, tree.node? id = some node) ∧ tree.Readable ids :=
  List.forall_mem_cons.1 h

/-- A search among positions that can be read succeeds, and finds the first node that fits. It reads
no further than that node. -/
theorem findNode_eq {tree : SyntaxTree} (fits : SyntaxNode → Bool) {ids : List NodeId}
    (h : tree.Readable ids) :
    tree.findNode fits ids = .ok ((ids.filterMap tree.node?).find? fits) := by
  induction ids with
  | nil => rfl
  | cons id ids ih =>
      obtain ⟨⟨node, hnode⟩, hids⟩ := h.of_cons
      rw [findNode, read_eq_ok_iff.2 hnode, List.filterMap_cons_some hnode]
      show (if fits node then _ else _) = _
      split
      · rename_i hfits
        rw [List.find?_cons_of_pos hfits]
        rfl
      · rename_i hfits
        rw [List.find?_cons_of_neg hfits]
        exact ih hids

/-- So does reading the first operands. That it succeeds is enough, since what it then yields is
known. -/
theorem takeOperands_eq {tree : SyntaxTree} (count : Nat) {ids : List NodeId}
    (h : tree.Readable ids) :
    tree.takeOperands count ids =
      .ok (((ids.filterMap tree.node?).filter (·.isOperand)).take count) := by
  -- What is read is known from `eq_take_of_takeOperands`.
  suffices hfound : ∃ found, tree.takeOperands count ids = .ok found by
    obtain ⟨found, hfound⟩ := hfound
    rw [hfound, eq_take_of_takeOperands hfound]
  induction ids generalizing count with
  | nil => cases count <;> exact ⟨[], rfl⟩
  | cons id ids ih =>
      obtain ⟨⟨node, hnode⟩, hids⟩ := h.of_cons
      cases count with
      | zero => exact ⟨[], rfl⟩
      | succ count =>
          simp only [takeOperands, bind_eq_ok_iff]
          by_cases hoperand : node.isOperand = true
          · obtain ⟨rest, hrest⟩ := ih count hids
            refine ⟨node :: rest, node, read_eq_ok_iff.2 hnode, ?_⟩
            rw [if_pos hoperand, hrest]
            rfl
          · obtain ⟨found, hfound⟩ := ih (count + 1) hids
            refine ⟨found, node, read_eq_ok_iff.2 hnode, ?_⟩
            rw [if_neg hoperand, hfound]

/-- A search on the way up sees the nodes of the chain of parent links. It takes one step less than
the chain, because the chain starts at the node itself. -/
theorem anyUpwards_eq {tree : SyntaxTree} {marked : SyntaxNode → Except Failure Bool}
    {p : SyntaxNode → Bool} {steps : Nat} {id : NodeId} {node : SyntaxNode} {chain : List NodeId}
    (hnode : tree.node? id = some node) (hchain : tree.parentChain? (steps + 1) id = some chain)
    (hmarked : ∀ above ∈ tree.nodes, marked above = .ok (p above)) :
    tree.anyUpwards marked steps node.parent = .ok ((chain.filterMap tree.node?).any p) := by
  induction steps generalizing id node chain with
  | zero =>
      -- A chain that is found in one step belongs to the root.
      cases hparent : node.parent with
      | none =>
          obtain rfl : [] = chain := by simpa [parentChain?, hnode, hparent] using hchain
          rfl
      | some up => simp [parentChain?, hnode, hparent] at hchain
  | succ steps ih =>
      rw [parentChain?, hnode] at hchain
      cases hparent : node.parent with
      | none =>
          obtain rfl : [] = chain := by simpa [hparent] using hchain
          rfl
      | some up =>
          obtain ⟨rest, hrest, rfl⟩ : ∃ rest, tree.parentChain? (steps + 1) up = some rest ∧
              up :: rest = chain := by
            simpa [hparent, Option.bind_eq_some_iff] using hchain
          obtain ⟨above, habove, -⟩ : ∃ above, tree.node? up = some above ∧ _ :=
            Option.bind_eq_some_iff.1 hrest
          have hmark := hmarked above (mem_nodes_iff.2 ⟨up, habove⟩)
          rw [anyUpwards, List.filterMap_cons_some habove, List.any_cons, bind_eq_ok_iff]
          refine ⟨above, read_eq_ok_iff.2 habove, bind_eq_ok_iff.2 ⟨p above, hmark, ?_⟩⟩
          cases p above with
          | true => rfl
          | false => exact ih habove hrest

/-- On a valid tree the children of a node can be read, since it is the arena of an ordered tree,
where every child list leads to nodes of the arena. -/
theorem readable_children {tree : SyntaxTree} {length : Nat}
    (hvalid : tree.validate length = .ok ()) {node : SyntaxNode} (hnode : node ∈ tree.nodes) :
    tree.Readable node.children := by
  obtain ⟨t, rfl⟩ := eq_arena_of_validate hvalid
  obtain ⟨id, hid⟩ := mem_nodes_iff.1 hnode
  intro child hchild
  obtain ⟨childNode, hread, -⟩ := t.linked_arena id node hid child hchild
  exact ⟨childNode, hread⟩

/-- On a valid tree the parent of a node can be read. The walk up the parent links comes past it,
and this walk never leaves the arena. -/
theorem readable_parent {tree : SyntaxTree} {length : Nat}
    (hvalid : tree.validate length = .ok ()) {node : SyntaxNode} (hnode : node ∈ tree.nodes)
    {up : NodeId} (hup : node.parent = some up) : ∃ parent, tree.node? up = some parent := by
  obtain ⟨id, hid⟩ := mem_nodes_iff.1 hnode
  obtain ⟨chain, hchain, -⟩ := mem_ancestors_iff hvalid (lt_size_of_node? hid)
  -- The chain of parent links goes past the parent, so that it was read.
  rw [ancestors?, parentChain?, hid] at hchain
  obtain ⟨rest, hrest, -⟩ : ∃ rest, tree.parentChain? tree.size up = some rest ∧
      up :: rest = chain := by
    simpa [hup, Option.bind_eq_some_iff] using hchain
  cases hsize : tree.size with
  | zero =>
      rw [hsize] at hrest
      cases hrest
  | succ steps =>
      rw [hsize, parentChain?] at hrest
      obtain ⟨parent, hparent, -⟩ := Option.bind_eq_some_iff.1 hrest
      exact ⟨parent, hparent⟩

/-- On a valid tree a search among the children of a node succeeds. -/
theorem findNode_children_eq {tree : SyntaxTree} {length : Nat}
    (hvalid : tree.validate length = .ok ()) (fits : SyntaxNode → Bool) {node : SyntaxNode}
    (hnode : node ∈ tree.nodes) :
    tree.findNode fits node.children = .ok ((tree.childNodes node).find? fits) :=
  findNode_eq fits (readable_children hvalid hnode)

/-- On a valid tree the first operands of a node can be read. -/
theorem takeOperands_children_eq {tree : SyntaxTree} {length : Nat}
    (hvalid : tree.validate length = .ok ()) (count : Nat) {node : SyntaxNode}
    (hnode : node ∈ tree.nodes) :
    tree.takeOperands count node.children = .ok ((tree.operands node).take count) :=
  takeOperands_eq count (readable_children hvalid hnode)

/-- A child is a node of the tree. -/
theorem mem_nodes_of_mem_childNodes {tree : SyntaxTree} {node child : SyntaxNode}
    (h : child ∈ tree.childNodes node) : child ∈ tree.nodes := by
  obtain ⟨id, -, hid⟩ := List.mem_filterMap.1 h
  exact mem_nodes_iff.2 ⟨id, hid⟩

end SyntaxTree

namespace Rules

variable {tree : SyntaxTree} {length : Nat} (hvalid : tree.validate length = .ok ())
include hvalid

/-- On a valid tree it can be found out whether a node has an attribute. -/
theorem hasAttribute_eq (fits : String → Bool) {node : SyntaxNode} (hnode : node ∈ tree.nodes) :
    hasAttribute tree fits node =
      .ok ((tree.childNodes node).any fun child => child.kind = .attr && child.name.any fits) := by
  rw [hasAttribute, SyntaxTree.findNode_children_eq hvalid _ hnode, ← List.isSome_find?]
  rfl

/-- The search for a marked ancestor ends, and has looked at all ancestors if it found none. At each
of them the attributes are asked for only if its kind is one of those that count. -/
theorem standsInMarked_eq (kinds : List NodeKind) (fits : String → Bool) {id : NodeId}
    {node : SyntaxNode} (hnode : tree.node? id = some node) :
    standsInMarked tree kinds fits node =
      .ok ((tree.ancestorNodes id).any fun above => kinds.contains above.kind &&
        (tree.childNodes above).any fun child => child.kind = .attr && child.name.any fits) := by
  obtain ⟨chain, hchain, -⟩ :=
    SyntaxTree.mem_ancestors_iff hvalid (SyntaxTree.lt_size_of_node? hnode)
  rw [SyntaxTree.ancestorNodes, hchain]
  refine SyntaxTree.anyUpwards_eq hnode hchain fun above habove => ?_
  rw [hasAttribute_eq hvalid fits habove]
  cases kinds.contains above.kind <;> rfl

end Rules

/-! ### Calls of `.len()` -/

namespace Rules.LengthComparison

/-- A call of `.len()` without arguments. -/
def isLengthCall (tree : SyntaxTree) (node : SyntaxNode) : Bool :=
  node.kind = .methodCall && node.name = some "len" && (tree.operands node).length = 1

/-- A rule that could look at all operands of a call sees whether it asks for a length. It takes as
many operands as the call has children, which are all of them. -/
theorem eq_isLengthCall_of_asksLength {tree : SyntaxTree} {node : SyntaxNode} {answer : Bool}
    (h : asksLength tree node = .ok answer) : answer = isLengthCall tree node := by
  rw [asksLength] at h
  rw [isLengthCall]
  split at h
  · rename_i hcall
    obtain ⟨found, hfound, h⟩ := bind_eq_ok_iff.1 h
    cases h
    -- There are no more operands than children.
    have hle : (tree.operands node).length ≤ node.children.length :=
      Nat.le_trans (List.length_filter_le _ _) (List.length_filterMap_le _ _)
    rw [hcall, SyntaxTree.eq_take_operands_of_takeOperands hfound, List.take_of_length_le hle]
    rfl
  · rename_i hcall
    cases h
    rw [Bool.not_eq_true] at hcall
    rw [hcall]
    rfl

end Rules.LengthComparison

end Arborist
