import Arborist.Grammar.Type

/-!
# `Arborist.Grammar.Operator`: operators between operands

`operation` extends a left operand to the right as long as the next operator binds tightly enough.
A range ends the extension, comparisons cannot be chained, and a cast cannot be followed by a
postfix operator.
-/

set_option autoImplicit false

namespace Arborist.Grammar

open Grammar.Parser
open Source (Position Token)

/-- The operators of two operands, longer ones before their beginnings. -/
def binaryOperators : List (String × Precedence) :=
  [("+=", .assign), ("-=", .assign), ("*=", .assign), ("/=", .assign), ("%=", .assign),
   ("^=", .assign), ("&=", .assign), ("|=", .assign), ("<<=", .assign), (">>=", .assign),
   ("&&", .and), ("||", .or), ("<<", .shift), (">>", .shift), ("==", .compare), ("<=", .compare),
   ("!=", .compare), (">=", .compare), ("+", .sum), ("-", .sum), ("*", .product), ("/", .product),
   ("%", .product), ("^", .bitXor), ("&", .bitAnd), ("|", .bitOr), ("<", .compare),
   (">", .compare)]

/-- The operator ahead. -/
def binaryOperator? (ts : List Token) : Option (String × Precedence) :=
  binaryOperators.find? fun (operator, _) => atMarks operator ts

/-- An equals sign that assigns. -/
def atAssignment (ts : List Token) : Bool := atMarks "=" ts && !atMarks "=>" ts

/-- How tightly the operator ahead binds; the loosest if there is none. -/
def precedenceAhead (ts : List Token) : Precedence :=
  match binaryOperator? ts with
  | some (_, precedence) => precedence
  | none =>
    if atAssignment ts then .assign
    else if atMarks ".." ts then .range
    else if atWord "as" ts then .cast
    else .jump

/-- The operand behind an operator, with the tighter operators behind it. -/
def rightOperand (G : Productions) (structs : Bool) (precedence : Precedence) : Parser Expr := do
  loop (fun right => do
    let ts ← ahead
    let next := precedenceAhead ts
    if precedence.rank < next.rank || (next = precedence && precedence = .assign) then
      let right ← G.operation structs next right
      if (← ahead).length = ts.length then return .done right else return .more right
    else return .done right) (← G.operand structs)

/-- The tokens that end a range without an upper bound. -/
def endsRange (structs : Bool) (ts : List Token) : Bool :=
  ts.isEmpty || atDot ts || (!structs && atGroup .brace ts) || atWord "as" ts ||
    [",", ";", "?", "=>", "=", "+", "/", "%", "^", ">", "<=", "!=", "-=", "*=", "&=", "|=",
      "<<="].any (atMarks · ts)

/-- The dots of a range and its upper bound. -/
def rangeRest (G : Productions) (structs : Bool) : Parser (List Outline) := do
  if ← marksIf "..=" then return (← rightOperand G structs .range).outlines
  else if atMarks "..." (← ahead) then fail
  else
    marks ".."
    if endsRange structs (← ahead) then return []
    else return (← rightOperand G structs .range).outlines

/-- What may not follow a cast. -/
def atPostfix (ts : List Token) : Bool :=
  atDot ts || atMarks "?" ts || atGroup .bracket ts || atGroup .paren ts

/-- One operator behind `left`, or the end. -/
def operationStep (G : Productions) (structs : Bool) (least : Precedence) (left : Expr) :
    Parser (Step Expr Expr) := do
  let ts ← ahead
  if left.shape = .range then return .done left
  match binaryOperator? ts with
  | some (operator, precedence) =>
    if precedence.rank < least.rank then return .done left
    if precedence = .compare && left.shape = .comparison then fail
    skip operator.length
    let right ← rightOperand G structs precedence
    let shape := if precedence = .compare then .comparison else .other
    return .more (.operator shape right.stop (some ⟨.binary, some operator⟩) left right.outlines)
  | none =>
    if least.rank ≤ Precedence.assign.rank && atAssignment ts then
      skip 1
      let right ← rightOperand G structs .assign
      return .more (.operator .other right.stop (some ⟨.assign, none⟩) left right.outlines)
    else if least.rank ≤ Precedence.range.rank && atMarks ".." ts then
      let upper ← rangeRest G structs
      return .more (.base .range (← since left.start) [] none (left.outlines ++ upper))
    else if least.rank ≤ Precedence.cast.rank && atWord "as" ts then
      skip 1
      let type ← G.type false
      if atPostfix (← ahead) then fail
      return .more (.operator .other (← since left.start).stop none left type.outlines)
    else return .done left

/-- The operators behind `left` that bind at least as tightly as `least`. -/
def operation (G : Productions) (structs : Bool) (least : Precedence) (left : Expr) : Parser Expr :=
  loop (operationStep G structs least) left

/-- An expression. -/
def expression (G : Productions) (structs : Bool) : Parser Expr := do
  G.operation structs .jump (← G.operand structs)

/-- What `p` contributes between commas, as expressions. -/
def expressions (G : Productions) : Parser (List Outline) :=
  terminated (return (← G.expression true).outlines)

end Arborist.Grammar
