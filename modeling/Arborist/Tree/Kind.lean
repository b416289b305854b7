/-!
# `Arborist.Tree.Kind`: the kinds of tree nodes

A node has one of these kinds, and rules subscribe to nodes by kind. Kinds fall into categories,
which no rule depends on. The names are those in reports and in the JSON form of a tree.
-/

set_option autoImplicit false

namespace Arborist

/-- The groups that node kinds fall into. -/
inductive NodeCategory where
  | declaration
  | expression
  | statement
  | literal
  | trivia
  | other
  deriving DecidableEq, Repr

def NodeCategory.name : NodeCategory → String
  | .declaration => "declaration"
  | .expression => "expression"
  | .statement => "statement"
  | .literal => "literal"
  | .trivia => "trivia"
  | .other => "other"

/-- What a node stands for. -/
inductive NodeKind where
  | file
  | function
  | structDef
  | enumDef
  | traitDef
  | implBlock
  | moduleDef
  | useDecl
  | constDef
  | staticDef
  | typeAlias
  | field
  | variant
  | param
  | letStatement
  | exprStatement
  | macroStatement
  | methodCall
  | call
  | macroCall
  | path
  | binary
  | unary
  | fieldAccess
  | index
  | closure
  | ifExpr
  | matchExpr
  | loopExpr
  | returnExpr
  | tryExpr
  | awaitExpr
  | reference
  | block
  | assign
  | stringLiteral
  | numberLiteral
  | boolLiteral
  | charLiteral
  | docComment
  | attr
  | visibility
  | matchArm
  deriving DecidableEq, Repr, Inhabited

namespace NodeKind

/-- Every kind, in the order of declaration. -/
def all : List NodeKind :=
  [.file, .function, .structDef, .enumDef, .traitDef, .implBlock, .moduleDef, .useDecl, .constDef,
   .staticDef, .typeAlias, .field, .variant, .param, .letStatement, .exprStatement,
   .macroStatement, .methodCall, .call, .macroCall, .path, .binary, .unary, .fieldAccess, .index,
   .closure, .ifExpr, .matchExpr, .loopExpr, .returnExpr, .tryExpr, .awaitExpr, .reference,
   .block, .assign, .stringLiteral, .numberLiteral, .boolLiteral, .charLiteral, .docComment,
   .attr, .visibility, .matchArm]

/-- The name of a kind, in trees and in configuration. -/
def name : NodeKind → String
  | .file => "file"
  | .function => "function"
  | .structDef => "struct"
  | .enumDef => "enum"
  | .traitDef => "trait"
  | .implBlock => "impl"
  | .moduleDef => "module"
  | .useDecl => "use"
  | .constDef => "const"
  | .staticDef => "static"
  | .typeAlias => "type-alias"
  | .field => "field"
  | .variant => "variant"
  | .param => "param"
  | .letStatement => "let"
  | .exprStatement => "expr-statement"
  | .macroStatement => "macro-statement"
  | .methodCall => "method-call"
  | .call => "call"
  | .macroCall => "macro-call"
  | .path => "path"
  | .binary => "binary"
  | .unary => "unary"
  | .fieldAccess => "field-access"
  | .index => "index"
  | .closure => "closure"
  | .ifExpr => "if"
  | .matchExpr => "match"
  | .loopExpr => "loop"
  | .returnExpr => "return"
  | .tryExpr => "try"
  | .awaitExpr => "await"
  | .reference => "reference"
  | .block => "block"
  | .assign => "assign"
  | .stringLiteral => "string-literal"
  | .numberLiteral => "number-literal"
  | .boolLiteral => "bool-literal"
  | .charLiteral => "char-literal"
  | .docComment => "doc-comment"
  | .attr => "attribute"
  | .visibility => "visibility"
  | .matchArm => "match-arm"

/-- The kind with this name. -/
def ofName? (text : String) : Option NodeKind := all.find? (·.name = text)

/-- The group of a kind. -/
def category : NodeKind → NodeCategory
  | .function | .structDef | .enumDef | .traitDef | .implBlock | .moduleDef | .useDecl | .constDef
  | .staticDef | .typeAlias | .field | .variant | .param => .declaration
  | .letStatement | .exprStatement | .macroStatement => .statement
  | .methodCall | .call | .macroCall | .path | .binary | .unary | .fieldAccess | .index | .closure
  | .ifExpr | .matchExpr | .loopExpr | .returnExpr | .tryExpr | .awaitExpr | .reference | .block
  | .assign => .expression
  | .stringLiteral | .numberLiteral | .boolLiteral | .charLiteral => .literal
  | .docComment | .attr => .trivia
  | .file | .visibility | .matchArm => .other

end NodeKind

end Arborist
