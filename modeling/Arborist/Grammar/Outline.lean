import Arborist.Source.Position
import Arborist.Tree.Kind

/-!
# `Arborist.Grammar.Outline`: what the grammar makes of a text

A grammar rule contributes a list of outlines: the nodes that rules of the linter may look at, with
their places, in the order in which a reader of the syntax visits them. Types, for instance, are no
nodes themselves, so the rule for types contributes only the expressions and attributes inside.

Some rules need to know more about a part that was just read than what it contributes; the phrases
below carry that. An `Expr` keeps the left edge of operators open, because attributes in front of
`a + b` belong to `a`.
-/

set_option autoImplicit false

namespace Arborist.Grammar

open Source (Position Span)

/-- A node to be, with the nodes inside it. -/
inductive Outline where
  | node (kind : NodeKind) (span : Span) (name : Option String) (children : List Outline)
  deriving Repr

namespace Outline

/-- A node without children. -/
def leaf (kind : NodeKind) (span : Span) (name : Option String) : Outline := .node kind span name []

def span : Outline → Span
  | .node _ span _ _ => span

end Outline

/-- The facts about an expression that decide how reading goes on. -/
inductive Shape where
  /-- Ends a statement without a semicolon. -/
  | blockLike
  | range
  | path (name : String)
  | invocation (name : String) (braced : Bool)
  /-- Accepted, but without any node. -/
  | silent
  | comparison
  | other
  deriving DecidableEq, Repr

/-- The node around the parts of an expression. -/
structure Frame where
  kind : NodeKind
  name : Option String
  deriving Repr

/-- An expression that was read. -/
inductive Expr where
  | base (shape : Shape) (span : Span) (attributes : List Outline) (frame : Option Frame)
      (inside : List Outline)
  /-- An operator behind its left operand: `stop` is where the whole ends, `after` what the right
  side contributes. -/
  | operator (shape : Shape) (stop : Position) (frame : Option Frame) (left : Expr)
      (after : List Outline)
  deriving Repr

namespace Expr

def shape : Expr → Shape
  | .base shape _ _ _ _ => shape
  | .operator shape _ _ _ _ => shape

def start : Expr → Position
  | .base _ span _ _ _ => span.start
  | .operator _ _ _ left _ => left.start

def stop : Expr → Position
  | .base _ span _ _ _ => span.stop
  | .operator _ stop _ _ _ => stop

def span (e : Expr) : Span := ⟨e.start, e.stop⟩

/-- `inside`, in a node if there is a frame. -/
def framed (frame : Option Frame) (span : Span) (inside : List Outline) : List Outline :=
  match frame with
  | some f => [.node f.kind span f.name inside]
  | none => inside

/-- What the expression contributes. An invocation is one node whatever its attributes are. -/
def outlines : Expr → List Outline
  | .base .silent _ _ _ _ => []
  | .base (.invocation name _) span _ _ _ => [.leaf .macroCall span (some name)]
  | .base _ span attributes frame inside => framed frame span (attributes ++ inside)
  | .operator _ stop frame left after => framed frame ⟨left.start, stop⟩ (left.outlines ++ after)

/-- With `attributes` in front, which start at `start`. -/
def attach (attributes : List Outline) (start : Position) : Expr → Expr
  | .base shape span own frame inside =>
    .base shape ⟨start, span.stop⟩ (attributes ++ own) frame inside
  | e => e

/-- Gives attributes in front of a statement to the leftmost operand. -/
def attachLeftmost (attributes : List Outline) (start : Position) : Expr → Expr
  | .base .silent span own frame inside => .base .silent span own frame inside
  | .base shape span own frame inside =>
    if attributes.isEmpty then .base shape span own frame inside
    else .base shape ⟨start, span.stop⟩ (attributes ++ own) frame inside
  | .operator shape stop frame left after =>
    .operator shape stop frame (left.attachLeftmost attributes start) after

/-- The expression needs a comma behind it to be the body of a match arm that is not the last. -/
def needsComma (e : Expr) : Bool := e.shape ≠ .blockLike

/-- The expression needs a semicolon behind it to be a statement that is not the last. -/
def needsSemicolon (e : Expr) : Bool :=
  match e.shape with
  | .invocation _ braced => !braced
  | _ => e.needsComma

end Expr

/-- The facts about a type that decide how reading goes on. -/
inductive TypeShape where
  /-- A path without a self type; `simple` when it is one word, perhaps with angle brackets. -/
  | path (simple : Bool)
  /-- Trait bounds without `dyn`; `single` when there is just one and no `+` behind it. -/
  | bounds (single : Bool)
  | other
  deriving DecidableEq, Repr

/-- A type that was read. -/
structure TypePhrase where
  shape : TypeShape
  outlines : List Outline
  deriving Repr

/-- The facts about a pattern that decide how reading goes on. -/
inductive PatternShape where
  | rest
  /-- A range with one bound missing; its dots stand at `dots`. -/
  | openRange (dots : Position)
  | other
  deriving DecidableEq, Repr

/-- A pattern that was read. -/
structure Pattern where
  shape : PatternShape
  /-- The name that the pattern binds as a whole. -/
  name : Option String
  /-- What the pattern contributes, in the form of an expression. -/
  body : Expr
  deriving Repr

namespace Pattern

def outlines (p : Pattern) : List Outline := p.body.outlines

end Pattern

/-- What a bound in a list of bounds is. -/
inductive BoundKind where
  | trait
  | lifetime
  | capture
  deriving DecidableEq, Repr

/-- A bound that was read. -/
structure Bound where
  kind : BoundKind
  outlines : List Outline
  deriving Repr

/-- How tightly operators bind, from the loosest. -/
inductive Precedence where
  | jump
  | assign
  | range
  | or
  | and
  | condition
  | compare
  | bitOr
  | bitXor
  | bitAnd
  | shift
  | sum
  | product
  | cast
  deriving DecidableEq, Repr

def Precedence.rank : Precedence → Nat
  | .jump => 0
  | .assign => 1
  | .range => 2
  | .or => 3
  | .and => 4
  | .condition => 5
  | .compare => 6
  | .bitOr => 7
  | .bitXor => 8
  | .bitAnd => 9
  | .shift => 10
  | .sum => 11
  | .product => 12
  | .cast => 13

end Arborist.Grammar
