import Arborist.Grammar.Parser

/-!
# `Arborist.Grammar.Attribute`: attributes, visibilities and blocks

An outer attribute stands in front of the thing it belongs to, an inner one, with an exclamation
mark, at the beginning of the braces of that thing. Both contribute one node.
-/

set_option autoImplicit false

namespace Arborist.Grammar

open Grammar.Parser
open Source (Position Span Token)

/-- A path without any brackets. -/
structure SimplePath where
  /-- A separator stands in front. -/
  leading : Bool
  segments : List String
  deriving Repr

namespace SimplePath

/-- The words with separators between them. -/
def name (p : SimplePath) : String := String.intercalate "::" p.segments

end SimplePath

/-- The words of a path after those in `read`. -/
def simpleSegments (read : List String) : Parser (List String) :=
  loop (fun read => do
    if !(atIdentifier (← ahead) || atWordOf pathWords (← ahead)) then fail
    let read := read ++ [← anyWord]
    if ← marksIf "::" then return .more read else return .done read) read

/-- A path of words. -/
def simplePath : Parser SimplePath := do
  let leading ← marksIf "::"
  return ⟨leading, ← simpleSegments []⟩

/-- The value behind the equals sign of an attribute. -/
def attributeValue (G : Productions) : Parser Unit := do
  let whole ← attempt do
    let _ ← literal
    if !(← atEnd) then fail
  if whole.isNone then
    let ts ← ahead
    if atMarks "#" ts && atGroup .bracket (ts.drop 1) then fail
    let _ ← G.expression true

/-- The inside of an attribute's brackets; the answer is its path. -/
def attributeContent (G : Productions) : Parser SimplePath := do
  let path ← if ← wordIf "unsafe" then pure ⟨false, ["unsafe"]⟩ else simplePath
  let ts ← ahead
  if atGroup .paren ts || atGroup .bracket ts || atGroup .brace ts then skip 1
  else if ← marksIf "=" then attributeValue G
  return path

/-- The brackets of an attribute that starts at `start`, as a node. -/
def attributeBrackets (G : Productions) (start : Position) : Parser Outline := do
  let (path, tokens) ← group .bracket (withTokens (attributeContent G))
  let span ← since start
  if path.leading = false ∧ path.segments = ["doc"] then return .leaf .docComment span none
  else return .leaf .attr span (some (Token.renderAll tokens))

/-- The outer attributes ahead. -/
def outerAttributes (G : Productions) : Parser (List Outline) :=
  whileAhead (atMarks "#") do
    let start ← here
    marks "#"
    return [← attributeBrackets G start]

/-- The inner attributes ahead. -/
def innerAttributes (G : Productions) : Parser (List Outline) :=
  whileAhead (fun ts => atMarks "#" ts && atMarks "!" (ts.drop 1)) do
    let start ← here
    skip 2
    return [← attributeBrackets G start]

/-- A block in braces without inner attributes. -/
def block (G : Productions) : Parser Outline := do
  let start ← here
  let inside ← group .brace G.statements
  return .node .block (← since start) none inside

/-- A block in braces; first what its inner attributes contribute. -/
def blockWithAttributes (G : Productions) : Parser (List Outline × Outline) := do
  let start ← here
  let (attributes, inside) ← group .brace do
    let attributes ← innerAttributes G
    return (attributes, ← G.statements)
  return (attributes, .node .block (← since start) none inside)

/-- The parentheses behind `pub`, if they restrict a visibility: one of three words alone, or any
path behind `in`. Other parentheses belong to what follows. -/
def restriction : Parser Unit := do
  match ← ahead with
  | .group .paren inside _ :: _ =>
    if atWordOf ["crate", "self", "super"] inside then
      if inside.length = 1 then skip 1
    else if atWord "in" inside then
      group .paren do
        word "in"
        let _ ← simplePath
  | _ => pure ()

/-- The visibility ahead as a node, or nothing. -/
def visibility : Parser (List Outline) := do
  let start ← here
  if atWord "pub" (← ahead) then
    let (_, tokens) ← withTokens do
      skip 1
      restriction
    return [.leaf .visibility (← since start) (some (Token.renderAll tokens))]
  else return []

end Arborist.Grammar
