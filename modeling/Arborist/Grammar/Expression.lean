import Arborist.Grammar.Control

/-!
# `Arborist.Grammar.Expression`: operands and statement expressions

An operand is an atom with its postfix operators, perhaps behind prefix operators and attributes.
-/

set_option autoImplicit false

namespace Arborist.Grammar

open Grammar.Parser
open Source (Position Token)

/-- An expression without a node of its own. -/
def unframed (start : Position) (inside : List Outline) : Parser Expr :=
  return .base .other (← since start) [] none inside

/-- The start of an expression, where one may also be left out. -/
def atExpression (ts : List Token) : Bool :=
  (atAnyWord ts && !atWord "as" ts) || atGroup .paren ts || atGroup .bracket ts ||
    atGroup .brace ts || atLiteral ts || (atMarks "!" ts && !atMarks "!=" ts) ||
    (atMarks "-" ts && !atMarks "-=" ts && !atMarks "->" ts) ||
    (atMarks "*" ts && !atMarks "*=" ts) || (atMarks "|" ts && !atMarks "|=" ts) ||
    (atMarks "&" ts && !atMarks "&=" ts) || atMarks ".." ts ||
    (atMarks "<" ts && !atMarks "<=" ts && !atMarks "<<=" ts) || atMarks "::" ts ||
    atLifetime ts || atMarks "#" ts

/-- An expression that may be left out. -/
def optionalExpression (G : Productions) : Parser (List Outline) := do
  if atExpression (← ahead) then return (← G.expression true).outlines else return []

/-- One field of a struct expression. -/
def fieldValue (G : Productions) : Parser (List Outline) := do
  let attributes ← outerAttributes G
  let start ← here
  match ← ahead with
  | .literal text _ :: _ =>
    if (tupleIndex? text).isNone then fail
    skip 1
    marks ":"
    return attributes ++ (← G.expression true).outlines
  | _ =>
    let name ← identifier
    let span ← since start
    if ← marksIf ":" then return attributes ++ (← G.expression true).outlines
    else return attributes ++ [.leaf .path span (some name)]

/-- The inside of the braces of a struct expression. -/
def fieldValues (G : Productions) : Parser (List Outline) :=
  loop (fun found => do
    if ← atEnd then return .done found
    if ← marksIf ".." then
      if ← atEnd then return .done found
      else return .done (found ++ (← G.expression true).outlines)
    let found := found ++ (← fieldValue G)
    if ← atEnd then return .done found
    marks ","
    return .more found) []

/-- An expression that starts with a path. -/
def pathExpression (G : Productions) (structs : Bool) : Parser Expr := do
  let start ← here
  let path ← path G true
  let ts ← ahead
  if isInvocation path ts then
    let braced ← invocationRest
    return .base (.invocation path.name braced) (← since start) [] none []
  else if structs && atGroup .brace ts then
    let fields ← group .brace (fieldValues G)
    unframed start (path.outlines ++ fields)
  else pathExpr path start

/-- The inside of the brackets of an array: elements between commas, or an element and a length. -/
def arrayElements (G : Productions) : Parser (List Outline) := do
  if ← atEnd then return []
  let first ← G.expression true
  if ← atEnd then return first.outlines
  else if ← marksIf "," then return first.outlines ++ (← expressions G)
  else if ← marksIf ";" then return first.outlines ++ (← G.expression true).outlines
  else fail

/-- A jump out of a loop, perhaps with a value. A label with a colon would start a labelled loop,
which has to stand in parentheses. -/
def breakExpression (G : Productions) (structs : Bool) : Parser Expr := do
  let start ← here
  word "break"
  let label ← here
  let ts ← ahead
  if atLifetime ts && atMarks ":" (ts.drop 1) then
    let _ ← G.expression true
    failAt label
  let _ ← lifetimeIf
  let ts ← ahead
  let value ←
    if atExpression ts && (structs || !atGroup .brace ts) then
      pure (← G.expression true).outlines
    else pure []
  unframed start value

/-- The start of a closure. -/
def atClosure (ts : List Token) : Bool :=
  let second := ts.drop 1
  atMarks "|" ts || atWord "move" ts || (atWord "for" ts && atGenerics second) ||
    (atWord "const" ts && !atGroup .brace second) || atWord "static" ts ||
    (atWord "async" ts && (atMarks "|" second || atWord "move" second))

/-- An expression without operators around it. -/
def atom (G : Productions) (structs : Bool) : Parser Expr := do
  let start ← here
  let ts ← ahead
  let second := ts.drop 1
  if atLiteral ts then
    let value ← literal
    unframed start [value]
  else if atWord "async" ts &&
      (atGroup .brace second || (atWord "move" second && atGroup .brace (ts.drop 2))) then
    asyncBlock G start
  else if atWord "try" ts && atGroup .brace second then tryBlock G start
  else if atClosure ts then closure G structs
  else if atWord "builtin" ts && atMarks "#" second then
    skip 2
    let _ ← identifier
    if !atGroup .paren (← ahead) then fail
    skip 1
    return .base .silent (← since start) [] none []
  else if atPath ts || atMarks "<" ts ||
      (atWord "try" ts && (atMarks "!" second || atMarks "::" second)) then
    pathExpression G structs
  else if atGroup .paren ts then
    let inside ← group .paren (expressions G)
    unframed start inside
  else if atWord "break" ts then breakExpression G structs
  else if ← wordIf "continue" then
    let _ ← lifetimeIf
    unframed start []
  else if ← wordIf "return" then
    let value ← optionalExpression G
    return .base .other (← since start) [] (some ⟨.returnExpr, none⟩) value
  else if ← wordIf "become" then
    let _ ← G.expression true
    return .base .silent (← since start) [] none []
  else if atGroup .bracket ts then
    let inside ← group .bracket (arrayElements G)
    unframed start inside
  else if atWord "let" ts then letCondition G structs
  else if atWord "if" ts then branch G
  else if atWord "while" ts then whileLoop G start
  else if atWord "for" ts then forLoop G start
  else if atWord "loop" ts then plainLoop G start
  else if atWord "match" ts then matchExpr G
  else if ← wordIf "yield" then
    let value ← optionalExpression G
    unframed start value
  else if atWord "unsafe" ts then unsafeBlock G start
  else if atWord "const" ts then constBlock G start
  else if atGroup .brace ts then blockExpr G start
  else if atMarks ".." ts then
    let upper ← rangeRest G structs
    return .base .range (← since start) [] none upper
  else if ← wordIf "_" then unframed start []
  else if atLifetime ts then labelled G
  else fail

/-- A tuple position behind `base`; the number ends `length` characters behind `start`. -/
def positionAccess (base : Expr) (start : Position) (length index : Nat) : Expr :=
  .base .other ⟨base.start, ⟨start.line, start.column + length⟩⟩ []
    (some ⟨.fieldAccess, some (toString index)⟩) base.outlines

/-- The tuple positions that a number with points stands for, one behind the other. `before` is the
number of characters in front of the next one. -/
def positionAccesses (start : Position) : (before : Nat) → List (List Char) → Expr → Option Expr
  | _, [], base => some base
  | before, part :: parts, base => do
    let index ← tupleIndex? (String.ofList part)
    let stop := before + part.length
    positionAccesses start (stop + 1) parts (positionAccess base start stop index)

/-- A member behind a dot that is no number with a point: an await, a tuple position, a field or a
method call. -/
def namedMember (G : Productions) (base : Expr) : Parser Expr := do
  match ← ahead with
  | .literal text span :: _ =>
    match isFloatText text, tupleIndex? text with
    | false, some index =>
      skip 1
      return positionAccess base span.start (span.stop.column - span.start.column) index
    | _, _ => fail
  | _ =>
    if ← wordIf "await" then
      return .base .other (← since base.start) [] (some ⟨.awaitExpr, none⟩) base.outlines
    let name ← identifier
    let turbofish := atMarks "::" (← ahead)
    let types ←
      if turbofish then
        skip 2
        pure (← angleArguments G).2
      else pure []
    if turbofish || atGroup .paren (← ahead) then
      let arguments ← group .paren (expressions G)
      return .base .other (← since base.start) [] (some ⟨.methodCall, some name⟩)
        (base.outlines ++ types ++ arguments)
    else
      return .base .other (← since base.start) [] (some ⟨.fieldAccess, some name⟩) base.outlines

/-- A member behind a dot. A number with a point is two tuple positions, and one that ends with a
point is a tuple position and the dot of a further member. -/
def member (G : Productions) (base : Expr) : Parser Expr := do
  match ← ahead with
  | .literal text span :: _ =>
    if isFloatText text then
      let trailing := text.toList.getLast? = some '.'
      let digits := if trailing then text.toList.dropLast else text.toList
      match positionAccesses span.start 0 (Text.splitAll '.' digits) base with
      | none => fail
      | some e =>
        skip 1
        if trailing then namedMember G e else return e
    else namedMember G base
  | _ => namedMember G base

/-- The name of a call of `function`. -/
def callName (function : Expr) : Option String :=
  match function.shape with
  | .path name => some name
  | _ => none

/-- The postfix operators behind `base`. -/
def postfixes (G : Productions) (base : Expr) : Parser Expr :=
  loop (fun e => do
    let ts ← ahead
    if atGroup .paren ts then
      let arguments ← group .paren (expressions G)
      return .more (.base .other (← since e.start) [] (some ⟨.call, callName e⟩)
        (e.outlines ++ arguments))
    else if atDot ts && e.shape ≠ .range then
      skip 1
      return .more (← member G e)
    else if atGroup .bracket ts then
      let index ← group .bracket (G.expression true)
      return .more (.base .other (← since e.start) [] (some ⟨.index, none⟩)
        (e.outlines ++ index.outlines))
    else if atMarks "?" ts && e.shape ≠ .range then
      skip 1
      return .more (.base .other (← since e.start) [] (some ⟨.tryExpr, none⟩) e.outlines)
    else return .done e) base

/-- An atom with its postfix operators, behind attributes that start at `start`. A range cannot have
attributes; the failure is then at its dots. -/
def postfixed (G : Productions) (structs : Bool) (start : Position) (attributes : List Outline) :
    Parser Expr := do
  let own ← here
  let e ← postfixes G (← atom G structs)
  if attributes.isEmpty then return e
  else if e.shape = .range then failAt own
  else return e.attach attributes start

/-- An expression without operators behind it. -/
def operand (G : Productions) (structs : Bool) : Parser Expr := do
  let start ← here
  let attributes ← outerAttributes G
  let ts ← ahead
  if ← marksIf "&" then
    let ts ← ahead
    let raw := atWord "raw" ts && (atWord "mut" (ts.drop 1) || atWord "const" (ts.drop 1))
    if raw then skip 1
    let mutable ← wordIf "mut"
    if raw && !mutable then word "const"
    let inside ← G.operand structs
    let name := if mutable then "&mut" else "&"
    let frame : Option Frame := if raw then none else some ⟨.reference, some name⟩
    return .base .other (← since start) attributes frame inside.outlines
  else if atMarks "*" ts || atMarks "!" ts || atMarks "-" ts then
    let name := if atMarks "*" ts then "*" else if atMarks "!" ts then "!" else "-"
    skip 1
    let inside ← G.operand structs
    return .base .other (← since start) attributes (some ⟨.unary, some name⟩) inside.outlines
  else postfixed G structs start attributes

/-- The first operand of a statement, which is a block-like expression where one can be. -/
def firstOperand (G : Productions) : Parser Expr := do
  let start ← here
  let ts ← ahead
  let second := ts.drop 1
  if atWord "if" ts then branch G
  else if atWord "while" ts then whileLoop G start
  else if atWord "for" ts && !atGenerics second then forLoop G start
  else if atWord "loop" ts then plainLoop G start
  else if atWord "match" ts then matchExpr G
  else if atWord "try" ts && atGroup .brace second then tryBlock G start
  else if atWord "unsafe" ts then unsafeBlock G start
  else if atWord "const" ts && atGroup .brace second then constBlock G start
  else if atGroup .brace ts then blockExpr G start
  else if atLifetime ts then labelled G
  else G.operand true

/-- An expression at the start of a statement. A block-like one ends it, unless a dot or a question
mark follows. -/
def statementExpression (G : Productions) : Parser Expr := do
  let start ← here
  let attributes ← outerAttributes G
  let first ← firstOperand G
  let ts ← ahead
  let attached (e : Expr) : Expr := e.attachLeftmost attributes start
  if first.shape ≠ .blockLike then G.operation true .jump (attached first)
  else if atDot ts || atMarks "?" ts then
    G.operation true .jump (attached (← postfixes G first))
  else return attached first

end Arborist.Grammar
