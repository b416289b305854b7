import Arborist.Tree.Basic

/-!
# `Arborist.Tree.Validate`: when an arena is a tree

`SyntaxTree.validate` accepts an arena when it is the pre-order numbering of an ordered rooted tree
whose ranges nest, stay inside the source and never start further left than an earlier node.

It looks at the arena twice. `checkNode` takes the nodes one by one: the orientation and the bounds
of the range, then each child in order for a missing node, a parent link that points elsewhere and
a range that sticks out. `checkOrder` then walks from the root and requires that the walk visits
the arena from front to back; the stack holds the nodes still to be visited.
-/

set_option autoImplicit false

namespace Arborist

/-- Why an arena is not a tree, or why none could be built. -/
inductive TreeError where
  | empty
  | unclosed (count : Nat)
  | rootHasParent
  | invertedRange (node : NodeId) (range : TextRange)
  | outOfBounds (node : NodeId) (range : TextRange) (length : Nat)
  | missingChild (parent child : NodeId)
  | parentMismatch (parent child : NodeId)
  | childOutsideParent (parent : NodeId) (parentRange : TextRange) (child : NodeId)
      (childRange : TextRange)
  | notPreorder (expected found : NodeId)
  | startDecreases (node : NodeId) (start previous : Nat)
  | unreachable (count : Nat)
  deriving DecidableEq, Repr

/-- What to tell the user. -/
def TreeError.message : TreeError → String
  | .empty => "syntax tree is empty"
  | .unclosed count => s!"{count} node(s) left open when building the tree"
  | .rootHasParent => "root node has a parent"
  | .invertedRange node range => s!"node {node} has inverted range {range.render}"
  | .outOfBounds node range length =>
    s!"node {node} range {range.render} exceeds source length {length}"
  | .missingChild parent child => s!"node {parent} lists missing child {child}"
  | .parentMismatch parent child =>
    s!"node {child} is listed under {parent} but links to a different parent"
  | .childOutsideParent parent parentRange child childRange =>
    s!"node {child} range {childRange.render} is not contained in parent {parent} range " ++
      parentRange.render
  | .notPreorder expected found =>
    s!"nodes are not stored in pre-order: expected node {expected}, found {found}"
  | .startDecreases node start previous =>
    s!"node {node} starts at {start}, before the preceding node's start {previous}"
  | .unreachable count => s!"{count} node(s) are unreachable from the root"

namespace SyntaxTree

/-- One entry of a child list: it exists, links back, and lies inside its parent's range. -/
def checkChild (tree : SyntaxTree) (parent : NodeId) (node : SyntaxNode) (child : NodeId) :
    Except TreeError Unit :=
  match tree.node? child with
  | none => .error (.missingChild parent child)
  | some childNode =>
    if childNode.parent ≠ some parent then .error (.parentMismatch parent child)
    else if !node.range.contains childNode.range then
      .error (.childOutsideParent parent node.range child childNode.range)
    else .ok ()

/-- One node by itself and against its children. -/
def checkNode (tree : SyntaxTree) (length : Nat) (id : NodeId) (node : SyntaxNode) :
    Except TreeError Unit :=
  if node.range.stop < node.range.start then .error (.invertedRange id node.range)
  else if length < node.range.stop then .error (.outOfBounds id node.range length)
  else node.children.forM (tree.checkChild id node)

/-- The walk from the root. `stack` holds the nodes to visit next, `rest` the part of the arena
that the walk has not reached; its first node is number `expected`. -/
def checkOrder (expected previous : Nat) : List NodeId → List SyntaxNode → Except TreeError Unit
  | [], rest => if rest.isEmpty then .ok () else .error (.unreachable rest.length)
  | id :: _, [] => .error (.notPreorder expected id)
  | id :: stack, node :: rest =>
    if id ≠ expected then .error (.notPreorder expected id)
    else if node.range.start < previous then
      .error (.startDecreases id node.range.start previous)
    else checkOrder (expected + 1) node.range.start (node.children ++ stack) rest

/-- Checks the arena against a source of `length` bytes and names the first thing wrong. -/
def validate (tree : SyntaxTree) (length : Nat) : Except TreeError Unit :=
  match tree.node? 0 with
  | none => .error .empty
  | some root =>
    if root.parent.isSome then .error .rootHasParent
    else do
      tree.enumerated.forM fun (id, node) => tree.checkNode length id node
      checkOrder 0 0 [0] tree.nodes.toList

end SyntaxTree

end Arborist
