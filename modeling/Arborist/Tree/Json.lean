import Arborist.Json.Reader
import Arborist.Tree.Basic

/-!
# `Arborist.Tree.Json`: trees as JSON

A host process hands a tree over as `nodes`, an array of records with the members `kind`, `range`,
`parent`, `children` and `name`. Writing leaves out an absent name. Reading accepts any order of
members and an absent parent, child list or name; it does not check the links.
-/

set_option autoImplicit false

namespace Arborist

namespace TextRange

def toJson (r : TextRange) : Json :=
  .object [("start", .ofNat r.start), ("end", .ofNat r.stop)]

def ofJson? (j : Json) : Option TextRange := do
  match ← j.fields? ["start", "end"] with
  | [start, stop] => return ⟨← Json.required Json.asNat? start, ← Json.required Json.asNat? stop⟩
  | _ => none

end TextRange

namespace NodeKind

def toJson (kind : NodeKind) : Json := .string kind.name

def ofJson? (j : Json) : Option NodeKind := j.asConstant?.bind ofName?

end NodeKind

namespace SyntaxNode

def toJson (node : SyntaxNode) : Json :=
  .object <|
    [("kind", node.kind.toJson), ("range", node.range.toJson),
     ("parent", .ofOption .ofNat node.parent), ("children", .ofList .ofNat node.children)] ++
    match node.name with
    | some name => [("name", .string name)]
    | none => []

/-- A node position: a 32-bit number. -/
def idOfJson? (j : Json) : Option NodeId := j.asNatBelow? (Nat.pow 2 32)

def ofJson? (j : Json) : Option SyntaxNode := do
  match ← j.fields? ["kind", "range", "parent", "children", "name"] with
  | [kind, range, parent, children, name] =>
    return {
      kind := ← Json.required NodeKind.ofJson? kind
      range := ← Json.required TextRange.ofJson? range
      parent := ← Json.withDefault none (Json.asOption? idOfJson?) parent
      children := ← Json.withDefault [] (Json.asListOf? idOfJson?) children
      name := ← Json.withDefault none (Json.asOption? Json.asString?) name }
  | _ => none

end SyntaxNode

namespace SyntaxTree

def toJson (tree : SyntaxTree) : Json :=
  .object [("nodes", .ofList SyntaxNode.toJson tree.nodes.toList)]

def ofJson? (j : Json) : Option SyntaxTree := do
  match ← j.fields? ["nodes"] with
  | [nodes] => return ⟨(← Json.required (Json.asListOf? SyntaxNode.ofJson?) nodes).toArray⟩
  | _ => none

/-- The tree that a JSON text describes. -/
def parse? (text : String) : Option SyntaxTree := (Json.read? text).bind ofJson?

end SyntaxTree

end Arborist
