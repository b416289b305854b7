import Arborist.Grammar.Statement

/-!
# `Arborist.Grammar.Function`: functions

The signature contributes the generic parameters and the where clause first, then the parameters,
then the result type, whatever their order in the text.
-/

set_option autoImplicit false

namespace Arborist.Grammar

open Grammar.Parser
open Source (Position Token)

/-- A receiver: `self` with what may stand around it; first the place of `self`. -/
def receiver (G : Productions) : Parser (Position × List Outline) := do
  let reference ← marksIf "&"
  if reference then
    let _ ← lifetimeIf
  let _ ← wordIf "mut"
  let place ← here
  word "self"
  if !reference && atMarks ":" (← ahead) then
    marks ":"
    return (place, (← G.type true).outlines)
  else return (place, [])

/-- A parameter of a function. -/
inductive Parameter where
  /-- The receiver, with the place of `self`. -/
  | receiver (place : Position) (outlines : List Outline)
  | typed (name : Option String) (outlines : List Outline)
  | variadic (outlines : List Outline)

/-- One parameter behind its attributes. A type with angle brackets may stand alone. -/
def parameterRest (G : Productions) : Parser Parameter := do
  match ← attempt (receiver G) with
  | some (place, outlines) => return .receiver place outlines
  | none =>
    let ts ← ahead
    if atIdentifier ts && atMarks "<" (ts.drop 1) then
      return .typed none (← G.type true).outlines
    let pattern ← G.pattern
    marks ":"
    if ← marksIf "..." then return .variadic pattern.outlines
    else return .typed pattern.name (pattern.outlines ++ (← G.type true).outlines)

/-- The parameters of a function. Only the first one can be a receiver, and nothing but a comma
comes after the dots of a variadic one. -/
def parameters (G : Productions) : Parser (List Outline) :=
  loop (fun found => do
    if ← atEnd then return .done found
    let start ← here
    let attributes ← outerAttributes G
    if ← marksIf "..." then
      if !(← atEnd) then marks ","
      return .done (found ++ attributes)
    match ← parameterRest G with
    | .variadic outlines =>
      if !(← atEnd) then marks ","
      return .done (found ++ attributes ++ outlines)
    | .receiver place outlines =>
      if !found.isEmpty then failAt place
      next found (.node .param (← since start) (some "self") (attributes ++ outlines))
    | .typed name outlines =>
      next found (.node .param (← since start) name (attributes ++ outlines))) []
where
  /-- Behind a parameter. -/
  next (found : List Outline) (parameter : Outline) :
      Parser (Step (List Outline) (List Outline)) := do
    if ← atEnd then return .done (found ++ [parameter])
    marks ","
    return .more (found ++ [parameter])

/-- The head of a function. -/
structure Signature where
  name : String
  outlines : List Outline

/-- The words in front of `fn`. With `safe` the word of that name may stand for `unsafe`; the answer
is whether it does. -/
def functionWords (safe : Bool) : Parser Bool := do
  let _ ← wordIf "const"
  let _ ← wordIf "async"
  let isSafe ← if safe then wordIf "safe" else pure false
  if !isSafe then
    let _ ← wordIf "unsafe"
  let _ ← abiIf
  return isSafe

/-- The start of a signature. -/
def atSignature (safe : Bool) : Parser Bool := fun i =>
  match functionWords safe i with
  | .ok (_, j) => .ok (atWord "fn" j.rest, i)
  | .error _ => .ok (false, i)

/-- A signature behind the words in front of `fn`. -/
def signatureRest (G : Productions) : Parser Signature := do
  word "fn"
  let name ← identifier
  let (_, generic) ← generics G
  let inputs ← group .paren (parameters G)
  let output ← returnType G true
  let (_, predicates) ← whereClause G
  return ⟨name, generic ++ predicates ++ inputs ++ output⟩

/-- A signature. -/
def signature (G : Productions) : Parser Signature := do
  let _ ← functionWords false
  signatureRest G

/-- A function node, which starts at `start`. The attributes come first, inner ones last among
them. -/
def functionNode (start : Position) (attributes visibility : List Outline) (signature : Signature)
    (body : List Outline) : Parser Outline :=
  return .node .function (← since start) (some signature.name)
    (attributes ++ visibility ++ signature.outlines ++ body)

end Arborist.Grammar
