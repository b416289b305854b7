import Arborist.Text.Range
import Arborist.Tree.Kind

/-!
# `Arborist.Tree.Basic`: syntax trees as node arenas

A `SyntaxTree` is an array of nodes that name their parent and their children by position. The
array alone promises nothing: links may be missing, shared or circular. `Arborist.Tree.Validate`
says when an arena is the pre-order numbering of an ordered tree, and every walk over a tree asks
for that first.

The navigation functions that follow links answer `none` when a link leaves the arena. A node
follows at most as many links as there are nodes, so a walk that takes more steps is circular and
answers `none` as well.
-/

set_option autoImplicit false

namespace Arborist

/-- Position of a node in its arena. -/
abbrev NodeId := Nat

/-- One node of an arena. -/
structure SyntaxNode where
  kind : NodeKind
  range : TextRange
  /-- The node that lists this one as a child; none for the root. -/
  parent : Option NodeId := none
  children : List NodeId := []
  /-- The name, operator or literal text that the node carries. -/
  name : Option String := none
  deriving DecidableEq, Repr, Inhabited

/-- An arena of nodes; the root is node 0. -/
structure SyntaxTree where
  nodes : Array SyntaxNode
  deriving DecidableEq, Repr, Inhabited

namespace SyntaxTree

/-- Number of nodes. -/
def size (tree : SyntaxTree) : Nat := tree.nodes.size

def isEmpty (tree : SyntaxTree) : Bool := tree.nodes.isEmpty

/-- The node at a position of the arena. -/
def node? (tree : SyntaxTree) (id : NodeId) : Option SyntaxNode := tree.nodes[id]?

/-- The nodes with their positions, in arena order. -/
def enumerated (tree : SyntaxTree) : List (NodeId × SyntaxNode) :=
  tree.nodes.toList.zipIdx.map fun (node, id) => (id, node)

/-- The last node reached from `id` by going to the last child again and again. -/
def lastDescendant? (tree : SyntaxTree) : Nat → NodeId → Option NodeId
  | 0, _ => none
  | steps + 1, id => do
    let node ← tree.node? id
    match node.children.getLast? with
    | none => return id
    | some child => tree.lastDescendant? steps child

/-- One past the last position of the subtree of `id`, which on a valid tree is a contiguous piece
of the arena. -/
def subtreeEnd? (tree : SyntaxTree) (id : NodeId) : Option Nat :=
  (tree.lastDescendant? (tree.size + 1) id).map (· + 1)

/-- The positions of the nodes with exactly this range, in arena order. -/
def nodesAt (tree : SyntaxTree) (range : TextRange) : List NodeId :=
  tree.enumerated.filterMap fun (id, node) => if node.range = range then some id else none

/-- The first node of a kind with exactly this range. -/
def nodeAt? (tree : SyntaxTree) (range : TextRange) (kind : NodeKind) :
    Option (NodeId × SyntaxNode) :=
  tree.enumerated.find? fun (_, node) => node.range = range && node.kind = kind

/-- The chain of parent links from `id`, without `id` itself. -/
def parentChain? (tree : SyntaxTree) : Nat → NodeId → Option (List NodeId)
  | 0, _ => none
  | steps + 1, id => do
    let node ← tree.node? id
    match node.parent with
    | none => return []
    | some parent => do
      let rest ← tree.parentChain? steps parent
      return parent :: rest

/-- The positions of a node's ancestors, from its parent up to the root. -/
def ancestors? (tree : SyntaxTree) (id : NodeId) : Option (List NodeId) :=
  tree.parentChain? (tree.size + 1) id

/-- The ancestors themselves, from the parent up to the root; none if a link is broken. -/
def ancestorNodes (tree : SyntaxTree) (id : NodeId) : List SyntaxNode :=
  ((tree.ancestors? id).getD []).filterMap tree.node?

/-- The first position in a child list whose node is of the given kind. A position outside the arena
that comes before it has no kind to compare. -/
def firstOfKind? (tree : SyntaxTree) (kind : NodeKind) : List NodeId → Option (Option NodeId)
  | [] => some none
  | id :: ids => do
    let node ← tree.node? id
    if node.kind = kind then return some id else tree.firstOfKind? kind ids

/-- The nodes that a node lists as its children. -/
def childNodes (tree : SyntaxTree) (node : SyntaxNode) : List SyntaxNode :=
  node.children.filterMap tree.node?

end SyntaxTree

namespace SyntaxNode

/-- The source text of a node, if its range fits the source. -/
def text? (node : SyntaxNode) (source : String) : Option String :=
  Text.slice? source node.range.start node.range.stop

end SyntaxNode

end Arborist
