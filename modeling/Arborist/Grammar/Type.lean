import Arborist.Grammar.Generics

/-!
# `Arborist.Grammar.Type`: types

A type is no node. It contributes the lengths of its arrays, the constants among its generic
arguments, and the attributes of its parameters.
-/

set_option autoImplicit false

namespace Arborist.Grammar

open Grammar.Parser
open Source (Position Token)

/-- Bounds behind the first one of a type that is a list of bounds, each behind a plus sign. -/
def furtherBounds (G : Productions) : Parser (List Outline) :=
  loop (fun found => do
    if ← marksIf "+" then return .more (found ++ (← G.bound false false).outlines)
    else return .done found) []

/-- Bounds behind a path, each behind a plus sign; the list may end with one. Also whether there is
a plus sign at all. -/
def pathBounds (G : Productions) : Parser (Bool × List Outline) :=
  loop (fun (any, found) => do
    if ← marksIf "+" then
      if atBound false (← ahead) then
        return .more (true, found ++ (← G.bound false false).outlines)
      else return .done (true, found)
    else return .done (any, found)) (false, [])

/-- What the inside of parentheses turned out to be. -/
inductive Parenthesized where
  /-- A tuple, or a type in parentheses that nothing can follow. -/
  | closed (outlines : List Outline)
  /-- A bound with a question mark, which further bounds may follow. -/
  | optional (outlines : List Outline)
  /-- A single type. -/
  | single (type : TypePhrase)

/-- The inside of the parentheses of a type. -/
def parenthesizedTypes (G : Productions) : Parser Parenthesized := do
  let start ← here
  let ts ← ahead
  if ts.isEmpty then return .closed []
  else if atLifetime ts then return .closed (← traitBounds G start true false false)
  else if atMarks "?" ts then return .optional (← traitBound G true)
  else
    let first ← G.type true
    if ← marksIf "," then
      return .closed (first.outlines ++ (← terminated (return (← G.type true).outlines)))
    else return .single first

/-- A type that starts with a parenthesis. -/
def parenType (G : Productions) (plus : Bool) : Parser TypePhrase := do
  match ← group .paren (parenthesizedTypes G) with
  | .closed outlines => return ⟨.other, outlines⟩
  | .optional outlines =>
    let single := !atMarks "+" (← ahead)
    return ⟨.bounds single, outlines ++ (← furtherBounds G)⟩
  | .single first =>
    let isBound := match first.shape with
      | .path _ => true
      | .bounds single => single
      | .other => false
    if plus && atMarks "+" (← ahead) && isBound then
      return ⟨.bounds false, first.outlines ++ (← furtherBounds G)⟩
    else return ⟨.other, first.outlines⟩

/-- The name of the calling convention behind `extern`, if `extern` is next. -/
def abiIf : Parser Bool := do
  if ← wordIf "extern" then
    if atStringLiteral (← ahead) then skip 1
    return true
  else return false

/-- One parameter of a function type, behind its attributes. A receiver has no type, and a mutable
one contributes nothing. -/
def functionTypeParameter (G : Productions) (receiver : Bool) : Parser (List Outline) := do
  let ts ← ahead
  let mutable := receiver && atWord "mut" ts && atWord "self" (ts.drop 1)
  if mutable then skip 1
  let ts ← ahead
  let isSelf := receiver && atWord "self" ts
  let named := (atIdentifier ts || atWord "_" ts || isSelf) && atColon (ts.drop 1)
  if named then skip 2
  let ts ← ahead
  if receiver && !(named && isSelf) && atWord "mut" ts && atWord "self" (ts.drop 1) then
    skip 2
    return []
  else if mutable && !named then
    word "self"
    return []
  else
    let type ← G.type true
    return if mutable then [] else type.outlines

/-- The dots of a variadic parameter, perhaps behind a name. -/
def atVariadic (ts : List Token) : Bool :=
  atMarks "..." ts ||
    ((atIdentifier ts || atWord "_" ts) && atMarks ":" (ts.drop 1) && atMarks "..." (ts.drop 2))

/-- The parameters of a function type. -/
def functionTypeParameters (G : Productions) : Parser (List Outline) :=
  loop (fun (first, found) => do
    if ← atEnd then return .done found
    let found := found ++ (← outerAttributes G)
    if atVariadic (← ahead) then
      if !(atMarks "..." (← ahead)) then skip 2
      marks "..."
      let _ ← marksIf ","
      return .done found
    let found := found ++ (← functionTypeParameter G first)
    if ← atEnd then return .done found
    marks ","
    return .more (false, found)) (true, [])

/-- A function type. -/
def functionType (G : Productions) : Parser (List Outline) := do
  let _ ← wordIf "unsafe"
  let _ ← abiIf
  word "fn"
  let inside ← group .paren (functionTypeParameters G)
  return inside ++ (← returnType G false)

/-- A type that starts with a path. `lifetimes` are those that `for` bound in front of it. -/
def pathType (G : Productions) (plus : Bool) (lifetimes : Option (List Outline)) :
    Parser TypePhrase := do
  let path ← withParenArguments G (← path G false)
  if path.qualified then return ⟨.other, path.outlines⟩
  else if isInvocation path (← ahead) then
    let _ ← invocationRest
    return ⟨.other, []⟩
  else if lifetimes.isSome || (plus && atMarks "+" (← ahead)) then
    let (any, further) ← if plus then pathBounds G else pure (false, [])
    return ⟨.bounds !any, lifetimes.getD [] ++ path.outlines ++ further⟩
  else return ⟨.path path.isSimple, path.outlines⟩

/-- A slice or an array. -/
def bracketType (G : Productions) : Parser (List Outline) :=
  group .bracket do
    let element ← G.type true
    if ← marksIf ";" then return element.outlines ++ (← G.expression true).outlines
    else return element.outlines

/-- The tokens that may follow the lifetimes that `for` binds. -/
def atBoundType (ts : List Token) : Bool :=
  atIdentifier ts || atWordOf (["fn", "unsafe", "extern", "dyn"] ++ pathWords) ts

/-- A type. -/
def type (G : Productions) (plus : Bool) : Parser TypePhrase := do
  let (forAny, lifetimes) ← boundLifetimesIf G
  let start ← here
  let ts ← ahead
  if forAny && !atBoundType ts then fail
  if atGroup .paren ts then parenType G plus
  else if atWordOf ["fn", "unsafe", "extern"] ts then
    return ⟨.other, lifetimes ++ (← functionType G)⟩
  else if atPath ts || atMarks "<" ts then
    pathType G plus (if forAny then some lifetimes else none)
  else if ← wordIf "dyn" then
    let silent ← marksIf "*"
    let bounds ← traitBounds G start plus false false
    return ⟨.other, if silent || forAny then [] else bounds⟩
  else if atGroup .bracket ts then return ⟨.other, ← bracketType G⟩
  else if ← marksIf "*" then
    if !(← wordIf "const") then word "mut"
    return ⟨.other, (← G.type false).outlines⟩
  else if ← marksIf "&" then
    let _ ← lifetimeIf
    let _ ← wordIf "mut"
    return ⟨.other, (← G.type false).outlines⟩
  else if ← marksIf "!" then return ⟨.other, []⟩
  else if ← wordIf "impl" then return ⟨.other, ← traitBounds G start plus true true⟩
  else if ← wordIf "_" then return ⟨.other, []⟩
  else if atLifetime ts then return ⟨.bounds false, ← traitBounds G start plus false false⟩
  else fail

end Arborist.Grammar
