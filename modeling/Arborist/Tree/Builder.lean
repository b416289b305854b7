import Arborist.Tree.Validate

/-!
# `Arborist.Tree.Builder`: trees from nested calls

A `TreeBuilder` takes `start`, `leaf` and `finish` calls and stores the nodes in the order in which
they were started, which is pre-order. A fitting builder widens each node, when it is finished, to
cover its children; the plain one keeps every range as it was given.

A `finish` without an open node changes nothing.
-/

set_option autoImplicit false

namespace Arborist

/-- A tree under construction; `stack` holds the open nodes, innermost first. -/
structure TreeBuilder where
  nodes : Array SyntaxNode := #[]
  stack : List NodeId := []
  fitting : Bool := false
  deriving Repr

namespace TreeBuilder

/-- Opens a node under the innermost open one. -/
def start (b : TreeBuilder) (kind : NodeKind) (range : TextRange) (name : Option String) :
    TreeBuilder :=
  let id := b.nodes.size
  let parent := b.stack.head?
  let nodes := match parent with
    | some p => b.nodes.modify p fun node => { node with children := node.children ++ [id] }
    | none => b.nodes
  { b with nodes := nodes.push ⟨kind, range, parent, [], name⟩, stack := id :: b.stack }

/-- The range of `node` widened to cover the ranges of its children in `nodes`. -/
def fittedRange (nodes : Array SyntaxNode) (node : SyntaxNode) : TextRange :=
  (node.children.filterMap (nodes[·]?)).foldl (fun range child => range.cover child.range)
    node.range

/-- Closes the innermost open node. -/
def finish (b : TreeBuilder) : TreeBuilder :=
  match b.stack with
  | [] => b
  | id :: stack =>
    let nodes :=
      if b.fitting then
        b.nodes.modify id fun node => { node with range := fittedRange b.nodes node }
      else b.nodes
    { b with nodes, stack }

/-- Adds a node without children under the innermost open one. -/
def leaf (b : TreeBuilder) (kind : NodeKind) (range : TextRange) (name : Option String) :
    TreeBuilder :=
  (b.start kind range name).finish

/-- The finished tree; every node has to be closed and there has to be one. -/
def build (b : TreeBuilder) : Except TreeError SyntaxTree :=
  if !b.stack.isEmpty then .error (.unclosed b.stack.length)
  else if b.nodes.isEmpty then .error .empty
  else .ok ⟨b.nodes⟩

end TreeBuilder

end Arborist
