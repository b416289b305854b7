import Arborist.Rule.Basic
import Arborist.Text.WhiteSpace

/-!
# `Arborist.Rules.Surroundings`: where a node stands

A rule gets to other nodes by following links. It breaks down at a link that leaves the arena, and
it follows no more links than it needs: a search ends at the first node that fits.

Test code is marked by attributes of an enclosing function or module, and so are permissions for a
lint of the compiler's companion tool.
-/

set_option autoImplicit false

namespace Arborist

/-- The node is no attribute or doc comment of its parent. -/
def SyntaxNode.isOperand (node : SyntaxNode) : Bool :=
  node.kind ≠ .attr && node.kind ≠ .docComment

namespace SyntaxTree

/-- Reads the node at a position. -/
def read (tree : SyntaxTree) (id : NodeId) : Except Failure SyntaxNode :=
  match tree.node? id with
  | some node => .ok node
  | none => .error <| .breakdown <|
      some s!"index out of bounds: the len is {tree.size} but the index is {id}"

/-- The first of the nodes at the given positions that fits. -/
def findNode (tree : SyntaxTree) (fits : SyntaxNode → Bool) :
    List NodeId → Except Failure (Option SyntaxNode)
  | [] => return none
  | id :: ids => do
    let node ← tree.read id
    if fits node then return some node else tree.findNode fits ids

/-- The first `count` operands among the nodes at the given positions. -/
def takeOperands (tree : SyntaxTree) :
    (count : Nat) → List NodeId → Except Failure (List SyntaxNode)
  | 0, _ => return []
  | _ + 1, [] => return []
  | count + 1, id :: ids => do
    let node ← tree.read id
    if node.isOperand then return node :: (← tree.takeOperands count ids)
    else tree.takeOperands (count + 1) ids

/-- Some node on the way up from `start` is marked. A way of more steps than there are nodes is
circular and has no end. -/
def anyUpwards (tree : SyntaxTree) (marked : SyntaxNode → Except Failure Bool) :
    (steps : Nat) → (start : Option NodeId) → Except Failure Bool
  | _, none => return false
  | 0, some _ => throw (.breakdown none)
  | steps + 1, some id => do
    let node ← tree.read id
    if ← marked node then return true else tree.anyUpwards marked steps node.parent

/-- Some ancestor of the node is marked. -/
def anyAncestor (tree : SyntaxTree) (marked : SyntaxNode → Except Failure Bool)
    (node : SyntaxNode) : Except Failure Bool :=
  tree.anyUpwards marked tree.size node.parent

end SyntaxTree

namespace Rules

/-- The node has an attribute whose text fits. -/
def hasAttribute (tree : SyntaxTree) (fits : String → Bool) (node : SyntaxNode) :
    Except Failure Bool := do
  let found ← tree.findNode (fun child => child.kind = .attr && child.name.any fits) node.children
  return found.isSome

/-- The node stands in one of these kinds of nodes that has an attribute whose text fits. -/
def standsInMarked (tree : SyntaxTree) (kinds : List NodeKind) (fits : String → Bool)
    (node : SyntaxNode) : Except Failure Bool :=
  tree.anyAncestor (fun above =>
    if kinds.contains above.kind then hasAttribute tree fits above else pure false) node

/-- The attribute marks a test, or code that only tests have. -/
def isTestAttribute (content : String) : Bool :=
  content = "test" || content = "cfg(test)" || (Text.dropEnd? "::test".toList content.toList).isSome

/-- The node stands in a module or function that is marked as a test. -/
def inTestCode (tree : SyntaxTree) (node : SyntaxNode) : Except Failure Bool :=
  standsInMarked tree [.moduleDef, .function] isTestAttribute node

/-- The attribute is an `allow` that names one of the lints. -/
def allows (lints : List String) (content : String) : Bool :=
  (Text.dropStart? "allow(".toList content.toList).isSome &&
    lints.any fun lint => Text.occursIn lint.toList content.toList

/-- The node stands in a module, function or implementation that allows one of the lints. -/
def allowedByAttribute (tree : SyntaxTree) (node : SyntaxNode) (lints : List String) :
    Except Failure Bool :=
  standsInMarked tree [.moduleDef, .function, .implBlock] (allows lints) node

end Rules

end Arborist
