import Arborist.Config.Basic
import Arborist.Rule.Basic
import Arborist.Rules.Surroundings

/-!
# `Arborist.Rules.DocComment`: public items have a doc comment

Only items that are plainly `pub` count; a narrower visibility is internal.
-/

set_option autoImplicit false

namespace Arborist.Rules

/-- The kinds of items that need a doc comment. -/
structure DocComment where
  functions : Bool := true
  structs : Bool := true
  enums : Bool := true
  deriving DecidableEq, Repr

namespace DocComment

def descriptor : Descriptor where
  code := "TL004"
  name := "require-doc-comments"
  description := "Requires documentation comments on public items"
  message := "public \x7bitem\x7d `\x7bname\x7d` has no doc comment"
  applicability := .only [.source]

/-- The settings with those of the rule's table on top. -/
def configure (r : DocComment) (config : Config) : DocComment :=
  match config.ruleConfig? descriptor with
  | some table => {
      functions := table.flag "require_fn_docs" r.functions
      structs := table.flag "require_struct_docs" r.structs
      enums := table.flag "require_enum_docs" r.enums }
  | none => r

def kinds (r : DocComment) : List NodeKind :=
  (if r.functions then [.function] else []) ++ (if r.structs then [.structDef] else []) ++
    if r.enums then [.enumDef] else []

/-- What a message calls an item of a kind. -/
def itemName : NodeKind → String
  | .function => "function"
  | .structDef => "struct"
  | _ => "enum"

def isPublic (tree : SyntaxTree) (node : SyntaxNode) : Except Failure Bool := do
  let visibility ← tree.findNode (·.kind = .visibility) node.children
  return visibility.any (·.name = some "pub")

def isDocumented (tree : SyntaxTree) (node : SyntaxNode) : Except Failure Bool := do
  let comment ← tree.findNode (·.kind = .docComment) node.children
  return comment.isSome

/-- A public item of production code without a doc comment. -/
def lacksDocs (tree : SyntaxTree) (node : SyntaxNode) : Except Failure Bool := do
  if ← isPublic tree node then
    if ← isDocumented tree node then return false else return !(← inTestCode tree node)
  else return false

def onItem (scene : Scene) : Reaction :=
  .ofExcept do
    if ← lacksDocs scene.tree scene.node then
      return .reportOne {
        range := scene.node.range
        message := descriptor.message.fill
          [("item", itemName scene.node.kind), ("name", scene.node.name.getD "_")] }
    else return .pass

def rule (r : DocComment) : Rule where
  descriptor := descriptor
  subscriptions := Subscription.onEach r.kinds onItem

end DocComment

end Arborist.Rules
