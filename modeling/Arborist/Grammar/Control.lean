import Arborist.Grammar.Operator
import Arborist.Grammar.Pattern

/-!
# `Arborist.Grammar.Control`: branches, loops, blocks and closures

In the head of a branch or a loop, braces behind a path start the body and not a struct expression.
-/

set_option autoImplicit false

namespace Arborist.Grammar

open Grammar.Parser
open Source (Position Token)

/-- An expression that ends a statement, in a node if there is a frame. -/
def blockLike (start : Position) (frame : Option Frame) (attributes inside : List Outline) :
    Parser Expr :=
  return .base .blockLike (← since start) attributes frame inside

/-- A branch and what contributes to it; `outer` are the branches that it is the alternative of,
innermost first. -/
structure OpenBranch where
  start : Position
  inside : List Outline

/-- Closes the branches around `inside`, the alternative of the innermost one. -/
def closeBranches (stop : Position) : List OpenBranch → List Outline → List Outline
  | [], inside => inside
  | b :: outer, inside =>
    closeBranches stop outer [.node .ifExpr ⟨b.start, stop⟩ none (b.inside ++ inside)]

/-- A branch with its alternatives. -/
def branch (G : Productions) : Parser Expr := do
  let start ← here
  let (outer, inside) ← loop (fun outer => do
    let own ← here
    word "if"
    let condition ← G.expression false
    let body ← block G
    let outer := ⟨own, condition.outlines ++ [body]⟩ :: outer
    if ← wordIf "else" then
      let ts ← ahead
      if atWord "if" ts then return .more outer
      else if atGroup .brace ts then return .done (outer, [← block G])
      else fail
    else return .done (outer, [])) ([] : List OpenBranch)
  let stop := (← since start).stop
  match closeBranches stop outer inside with
  | [.node kind span name inside] => return .base .blockLike span [] (some ⟨kind, name⟩) inside
  | _ => fail

/-- The body of a loop: its inner attributes and its block. -/
def loopBody (G : Productions) (start : Position) (name : String) (head : List Outline) :
    Parser Expr := do
  let (attributes, block) ← blockWithAttributes G
  blockLike start (some ⟨.loopExpr, some name⟩) attributes (head ++ [block])

/-- A loop over a condition. A label in front of a loop starts at `start`. -/
def whileLoop (G : Productions) (start : Position) : Parser Expr := do
  word "while"
  let condition ← G.expression false
  loopBody G start "while" condition.outlines

/-- A loop over the elements of a value. -/
def forLoop (G : Productions) (start : Position) : Parser Expr := do
  word "for"
  let element ← alternatives G
  word "in"
  let values ← G.expression false
  loopBody G start "for" (element.outlines ++ values.outlines)

/-- A loop without a head. -/
def plainLoop (G : Productions) (start : Position) : Parser Expr := do
  word "loop"
  loopBody G start "loop" []

/-- A block as an expression. -/
def blockExpr (G : Productions) (start : Position) : Parser Expr := do
  let (attributes, block) ← blockWithAttributes G
  blockLike start none attributes [block]

/-- A block behind `unsafe`. -/
def unsafeBlock (G : Productions) (start : Position) : Parser Expr := do
  word "unsafe"
  blockExpr G start

/-- A block behind `try`. -/
def tryBlock (G : Productions) (start : Position) : Parser Expr := do
  word "try"
  blockLike start none [] [← block G]

/-- A block behind `async`. It does not end a statement. -/
def asyncBlock (G : Productions) (start : Position) : Parser Expr := do
  word "async"
  let _ ← wordIf "move"
  let block ← block G
  return .base .other (← since start) [] none [block]

/-- A loop or a block behind a label. -/
def labelled (G : Productions) : Parser Expr := do
  let start ← here
  lifetime
  marks ":"
  let ts ← ahead
  if atWord "while" ts then whileLoop G start
  else if atWord "for" ts then forLoop G start
  else if atWord "loop" ts then plainLoop G start
  else if atGroup .brace ts then blockExpr G start
  else fail

/-- One arm of a match. The comma behind it belongs to it. -/
def matchArm (G : Productions) : Parser (List Outline) := do
  let start ← here
  let attributes ← outerAttributes G
  let pattern ← alternatives G
  let guard ← if ← wordIf "if" then pure (← G.expression true).outlines else pure []
  marks "=>"
  let body ← G.statementExpression
  if body.needsComma && !(← atEnd) then marks ","
  else
    let _ ← marksIf ","
  let inside := attributes ++ pattern.outlines ++ guard ++ body.outlines
  return [.node .matchArm (← since start) none inside]

/-- A match. -/
def matchExpr (G : Productions) : Parser Expr := do
  let start ← here
  word "match"
  let value ← G.expression false
  let (attributes, arms) ← group .brace do
    let attributes ← innerAttributes G
    return (attributes, ← untilEnd (matchArm G))
  blockLike start (some ⟨.matchExpr, none⟩) attributes (value.outlines ++ arms)

/-- One parameter of a closure. -/
def closureParameter (G : Productions) : Parser (List Outline) := do
  let start ← here
  let attributes ← outerAttributes G
  let pattern ← G.pattern
  if ← marksIf ":" then
    return attributes ++ pattern.outlines ++ (← G.type true).outlines
  else if attributes.isEmpty then return pattern.outlines
  else return (pattern.body.attach attributes start).outlines

/-- A closure. -/
def closure (G : Productions) (structs : Bool) : Parser Expr := do
  let start ← here
  let (_, lifetimes) ← boundLifetimesIf G
  let _ ← wordIf "const"
  let _ ← wordIf "static"
  let _ ← wordIf "async"
  let _ ← wordIf "move"
  marks "|"
  let parameters ← enclosed "," (atMarks "|") (closureParameter G)
  marks "|"
  let body ←
    if ← marksIf "->" then
      let type ← G.type true
      pure (type.outlines ++ [← block G])
    else pure (← G.expression structs).outlines
  return .base .other (← since start) [] (some ⟨.closure, none⟩) (lifetimes ++ parameters ++ body)

/-- A condition that binds the parts of a value. -/
def letCondition (G : Productions) (structs : Bool) : Parser Expr := do
  let start ← here
  word "let"
  let pattern ← alternatives G
  marks "="
  let value ← G.operation structs .compare (← G.operand structs)
  return .base .other (← since start) [] none (pattern.outlines ++ value.outlines)

end Arborist.Grammar
