import Arborist.Grammar.Item
import Arborist.Source.Tokens

/-!
# `Arborist.Grammar.File`: the outline of a source text

`productions` ties the rules together. Each rule refers to the others at the next smaller depth, so
reading ends; at depth 0 every rule fails. `depthFor` is a depth that no text can use up: between
two nested uses of a rule that read nothing in between lie only a few rules.
-/

set_option autoImplicit false

namespace Arborist.Grammar

open Grammar.Parser
open Source (Position Token)

/-- The rules, nested at most `depth` deep. -/
def productions : (depth : Nat) → Productions
  | 0 => {
      expression := fun _ => fail
      statementExpression := fail
      operand := fun _ => fail
      operation := fun _ _ _ => fail
      type := fun _ => fail
      bound := fun _ _ => fail
      pattern := fail
      statements := fail
      item := fun _ _ => fail
      imports := fun _ => fail
      namedFields := fail }
  | depth + 1 => {
      expression := fun structs i => expression (productions depth) structs i
      statementExpression := fun i => statementExpression (productions depth) i
      operand := fun structs i => operand (productions depth) structs i
      operation := fun structs least left i => operation (productions depth) structs least left i
      type := fun plus i => type (productions depth) plus i
      bound := fun captures constant i => bound (productions depth) captures constant i
      pattern := fun i => pattern (productions depth) i
      statements := fun i => statements (productions depth) i
      item := fun start attributes i => item (productions depth) start attributes i
      imports := fun root i => imports (productions depth) root i
      namedFields := fun i => namedFields (productions depth) i }

/-- A file: inner attributes and items. -/
def file (G : Productions) : Parser (List Outline) := do
  let attributes ← innerAttributes G
  let items ← untilEnd do
    let start ← here
    G.item start (← outerAttributes G)
  return attributes ++ items

/-- A depth that is enough for a text of `length` characters. -/
def depthFor (length : Nat) : Nat := 16 * (length + 1)

/-- The outline of a source text, or the place where it cannot be read. A text that ends too early
is wrong at its first place. -/
def outline (text : String) : Except Position (List Outline) := do
  let cs := text.toList
  let tokens ← Source.tokens cs
  let input : Input := ⟨tokens, .first, .first, false, none⟩
  let (outlines, rest) ← file (productions (depthFor cs.length)) input
  match rest.leftover with
  | some place => throw place
  | none => return outlines

end Arborist.Grammar
