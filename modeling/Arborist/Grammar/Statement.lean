import Arborist.Grammar.Expression

/-!
# `Arborist.Grammar.Statement`: statements

A statement is a `let`, an item, an invocation or an expression. An expression that is not
block-like needs a semicolon behind it, unless it is the last one of its block.
-/

set_option autoImplicit false

namespace Arborist.Grammar

open Grammar.Parser
open Source (Position Token)

/-- The start of an item, apart from invocations. -/
def atItem (ts : List Token) : Bool :=
  let second := ts.drop 1
  let third := ts.drop 2
  atWordOf ["pub", "extern", "use", "fn", "mod", "type", "struct", "enum", "trait", "impl",
      "macro"] ts ||
    (atWord "crate" ts && !atMarks "::" second) ||
    (atWord "static" ts &&
      (atWord "mut" second ||
        (atIdentifier second &&
          !(atWord "async" second && (atWord "move" third || atMarks "|" third))))) ||
    (atWord "const" ts &&
      !(atGroup .brace second || atWord "static" second ||
        (atWord "async" second && !atWordOf ["unsafe", "extern", "fn"] third) ||
        atWord "move" second || atMarks "|" second)) ||
    (atWord "unsafe" ts && !atGroup .brace second) ||
    (atWord "async" ts && atWordOf ["unsafe", "extern", "fn"] second) ||
    (atWord "union" ts && atIdentifier second) ||
    (atWord "auto" ts && atWord "trait" second) ||
    (atWord "default" ts && atWordOf ["unsafe", "impl"] second)

/-- What a path and an exclamation mark at the start of a statement lead to. -/
inductive InvocationStart where
  | none
  /-- An item, because a name follows. -/
  | item
  /-- A statement of its own, because braces follow and no member behind them; `name` is the
  path. -/
  | statement (name : String)

/-- Looks at a path and an exclamation mark at the start of a statement. Only the path of a braced
invocation is read. -/
def invocationStart : Parser InvocationStart := fun i =>
  match simplePath i with
  | .error _ => .ok (.none, i)
  | .ok (path, j) =>
    let second := j.rest.drop 1
    let third := j.rest.drop 2
    if !atMarks "!" j.rest then .ok (.none, i)
    else if atIdentifier second || atWord "try" second then .ok (.item, i)
    else if atGroup .brace second && !(atDot third || atMarks "?" third) then
      .ok (.statement path.name, j)
    else .ok (.none, i)

/-- The rest of a `let` statement, behind attributes that start at `start`. -/
def letStatement (G : Productions) (start : Position) (attributes : List Outline) :
    Parser (List Outline) := do
  word "let"
  let pattern ← G.pattern
  let type ← if ← marksIf ":" then pure (← G.type true).outlines else pure []
  let value ←
    if ← marksIf "=" then
      let value ← G.expression true
      if !(← get).afterBrace && atWord "else" (← ahead) then
        word "else"
        pure (value.outlines ++ [← block G])
      else pure value.outlines
    else pure []
  marks ";"
  let inside := attributes ++ pattern.outlines ++ type ++ value
  return [.node .letStatement (← since start) pattern.name inside]

/-- The rest of an expression statement; also whether a semicolon has to follow. -/
def expressionStatement (G : Productions) (start : Position) (attributes : List Outline) :
    Parser (List Outline × Bool) := do
  let e := (← G.statementExpression).attachLeftmost attributes start
  let ended ← marksIf ";"
  let span ← since e.start
  match e.shape with
  | .invocation name braced =>
    if ended || braced then return ([.leaf .macroStatement span (some name)], false)
    else return (e.outlines, e.needsSemicolon)
  | _ =>
    if ended then return ([.node .exprStatement span none e.outlines], false)
    else return (e.outlines, e.needsSemicolon)

/-- One statement; also whether a semicolon has to follow. -/
def statement (G : Productions) : Parser (List Outline × Bool) := do
  let start ← here
  let attributes ← outerAttributes G
  match ← invocationStart with
  | .statement name =>
    let _ ← invocationRest
    let _ ← marksIf ";"
    return ([.leaf .macroStatement (← since start) (some name)], false)
  | .item => return (← G.item start attributes, false)
  | .none =>
    let ts ← ahead
    if atWord "let" ts then return (← letStatement G start attributes, false)
    else if atItem ts then return (← G.item start attributes, false)
    else expressionStatement G start attributes

/-- The statements up to the end of the input. A semicolon on its own is a statement too. -/
def statements (G : Productions) : Parser (List Outline) :=
  loop (fun found => do
    let start ← here
    if ← marksIf ";" then
      return .more (found ++ [.leaf .exprStatement (← since start) none])
    if ← atEnd then return .done found
    let (own, needsSemicolon) ← statement G
    let found := found ++ own
    if ← atEnd then return .done found
    if needsSemicolon then fail
    return .more found) []

end Arborist.Grammar
