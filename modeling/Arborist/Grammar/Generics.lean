import Arborist.Grammar.Path

/-!
# `Arborist.Grammar.Generics`: bounds, generic parameters and where clauses

Bounds and predicates are no nodes. What they contribute are the expressions inside: constants as
arguments of types, and the attributes of generic parameters.

A bound is a trait, a lifetime or a list of captured names, and where it stands decides which of
them are allowed. A bound at the wrong place fails where it starts, after it was read to its end.
-/

set_option autoImplicit false

namespace Arborist.Grammar

open Grammar.Parser
open Source (Token)

/-- One generic parameter behind its attributes. A parameter without a name is allowed in the list
of an item. -/
def genericParameterRest (G : Productions) (unnamed : Bool) : Parser (List Outline) := do
  let ts ← ahead
  if atLifetime ts then
    skip 1
    if ← marksIf ":" then
      separated "+" (fun ts => ts.isEmpty || atMarks "," ts || atMarks ">" ts)
        (do lifetime; return [])
    else return []
  else if atIdentifier ts then
    skip 1
    let bounds ←
      if ← marksIf ":" then
        separated "+"
          (fun ts => ts.isEmpty || atMarks "," ts || atMarks ">" ts || atMarks "=" ts)
          (return (← G.bound false true).outlines)
      else pure []
    if ← marksIf "=" then return bounds ++ (← G.type true).outlines else return bounds
  else if atWord "const" ts then
    skip 1
    let _ ← identifier
    marks ":"
    let type ← G.type true
    if ← marksIf "=" then return type.outlines ++ (← constantArgument G) else return type.outlines
  else if unnamed && atWord "_" ts then
    skip 1
    return []
  else fail

/-- One generic parameter. -/
def genericParameter (G : Productions) (unnamed : Bool) : Parser (List Outline) := do
  let attributes ← outerAttributes G
  return attributes ++ (← genericParameterRest G unnamed)

/-- Generic parameters in angle brackets, if there are any; also whether there are brackets. -/
def generics (G : Productions) : Parser (Bool × List Outline) := do
  if ← marksIf "<" then
    let inside ← enclosed "," (atMarks ">") (genericParameter G true)
    marks ">"
    return (true, inside)
  else return (false, [])

/-- The lifetimes that `for` binds. -/
def boundLifetimes (G : Productions) : Parser (List Outline) := do
  word "for"
  marks "<"
  let inside ← enclosed "," (atMarks ">") (genericParameter G false)
  marks ">"
  return inside

/-- The lifetimes that `for` binds, if it is next; also whether it is. -/
def boundLifetimesIf (G : Productions) : Parser (Bool × List Outline) := do
  if atWord "for" (← ahead) then return (true, ← boundLifetimes G) else return (false, [])

/-- The names in the angle brackets behind `use`. -/
def capturedNames : Parser Unit := do
  marks "<"
  let _ ← enclosed "," (atMarks ">") do
    if !(← lifetimeIf) then
      let _ ← identifierOr ["Self"]
    return []
  marks ">"

/-- A trait in a list of bounds, behind its parenthesis if it has one. -/
def traitBound (G : Productions) (constant : Bool) : Parser (List Outline) := do
  let (bound, lifetimes) ← boundLifetimesIf G
  let start ← here
  let ts ← ahead
  if atGroup .bracket ts then
    group .bracket (word "const")
    if !constant then failAt start
  else if ← wordIf "const" then
    if !constant then failAt start
  let modifier ← here
  let optional ← marksIf "?"
  let (bound, lifetimes) ←
    if optional && !bound then boundLifetimesIf G else pure (bound, lifetimes)
  let path ← withParenArguments G (← plainPath G false)
  if optional && bound then failAt modifier
  if atGroup .bracket ts || atWord "const" ts then return []
  else return lifetimes ++ path.outlines

/-- One bound. -/
def bound (G : Productions) (captures constant : Bool) : Parser Bound := do
  let start ← here
  let ts ← ahead
  if atLifetime ts then
    skip 1
    return ⟨.lifetime, []⟩
  else if ← wordIf "use" then
    capturedNames
    if !captures then failAt start
    return ⟨.capture, []⟩
  else if atGroup .paren ts then return ⟨.trait, ← group .paren (traitBound G constant)⟩
  else return ⟨.trait, ← traitBound G constant⟩

/-- The start of a further bound behind a plus sign. -/
def atBound (constant : Bool) (ts : List Token) : Bool :=
  atAnyWord ts || atMarks "::" ts || atMarks "?" ts || atLifetime ts || atGroup .paren ts ||
    (constant && atGroup .bracket ts)

/-- Bounds with plus signs between them; the list may end with one. -/
def bounds (G : Productions) (plus captures constant : Bool) : Parser (List Bound) :=
  loop (fun read => do
    let read := read ++ [← G.bound captures constant]
    if plus && atMarks "+" (← ahead) then
      marks "+"
      if atBound constant (← ahead) then return .more read else return .done read
    else return .done read) []

/-- Bounds of which at least one is a trait; otherwise the failure is at `start`. -/
def traitBounds (G : Productions) (start : Source.Position) (plus captures constant : Bool) :
    Parser (List Outline) := do
  let read ← bounds G plus captures constant
  if !read.any (·.kind = .trait) then failAt start
  return read.flatMap Bound.outlines

/-- What ends a list of bounds in a where clause. -/
def endsPredicate (ts : List Token) : Bool :=
  ts.isEmpty || atGroup .brace ts || atMarks "," ts || atMarks ";" ts || atColon ts ||
    atMarks "=" ts

/-- One predicate of a where clause. -/
def predicate (G : Productions) : Parser (List Outline) := do
  let ts ← ahead
  if atLifetime ts && atMarks ":" (ts.drop 1) then
    skip 2
    separated "+" (fun ts => endsPredicate ts || atMarks ":" ts) (do lifetime; return [])
  else
    let (_, lifetimes) ← boundLifetimesIf G
    let type ← G.type true
    marks ":"
    let bounds ← separated "+" endsPredicate (return (← G.bound false true).outlines)
    return lifetimes ++ type.outlines ++ bounds

/-- The where clause ahead, if there is one; also whether there is. -/
def whereClause (G : Productions) : Parser (Bool × List Outline) := do
  if ← wordIf "where" then
    if atGenerics (← ahead) then fail
    return (true, ← separated "," endsPredicate (predicate G))
  else return (false, [])

end Arborist.Grammar
