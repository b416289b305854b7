import Arborist.Grammar.Path

/-!
# `Arborist.Grammar.Pattern`: patterns

Of a pattern the literals, the paths and the invocations in it are nodes.
-/

set_option autoImplicit false

namespace Arborist.Grammar

open Grammar.Parser
open Source (Position Token)

namespace Pattern

/-- A pattern without a node of its own. -/
def plain (start : Position) (outlines : List Outline) : Parser Pattern :=
  return ⟨.other, none, .base .other (← since start) [] none outlines⟩

/-- A pattern that contributes nothing, not even attributes in front of it. -/
def silent (start : Position) : Parser Pattern :=
  return ⟨.other, none, .base .silent (← since start) [] none []⟩

end Pattern

/-- A single bar, which separates alternatives. -/
def atBar (ts : List Token) : Bool := atMarks "|" ts && !atMarks "||" ts && !atMarks "|=" ts

/-- A pattern with alternatives, perhaps with a bar in front. -/
def alternatives (G : Productions) : Parser Pattern := do
  let start ← here
  let leading ← marksIf "|"
  let first ← G.pattern
  if leading || atBar (← ahead) then
    let further ← whileAhead atBar do
      skip 1
      return (← G.pattern).outlines
    Pattern.plain start (first.outlines ++ further)
  else return first

/-- A path as an expression of its own. -/
def pathExpr (path : PathPhrase) (start : Position) : Parser Expr :=
  return .base (.path path.name) (← since start) [] (some ⟨.path, some path.name⟩) path.outlines

/-- A block behind `const`. -/
def constBlock (G : Productions) (start : Position) : Parser Expr := do
  word "const"
  let (attributes, block) ← blockWithAttributes G
  return .base .blockLike (← since start) attributes none [block]

/-- A bound of a range, if one is next. -/
def rangeBound (G : Productions) : Parser (Option Expr) := do
  let start ← here
  let ts ← ahead
  if ts.isEmpty || atMarks "|" ts || atMarks "=" ts || atColon ts || atMarks "," ts ||
      atMarks ";" ts || atWord "if" ts then return none
  else if atLiteral ts then
    let value ← literal
    return some (.base .other value.span [] none [value])
  else if atPath ts || atMarks "<" ts then return some (← pathExpr (← path G true) start)
  else if atWord "const" ts then return some (← constBlock G start)
  else fail

/-- The dots of a range in a pattern; the answer is whether it needs an upper bound. -/
def patternDots : Parser Bool := do
  if ← marksIf "..=" then return true
  else if ← marksIf "..." then return true
  else
    marks ".."
    return false

/-- A range behind its lower bound. -/
def patternRange (G : Productions) (lower : Expr) : Parser Pattern := do
  let dots ← here
  let closed ← patternDots
  match ← rangeBound G with
  | some upper =>
    let body := .base .other (← since lower.start) [] none (lower.outlines ++ upper.outlines)
    return ⟨.other, none, body⟩
  | none =>
    if closed then fail
    return ⟨.openRange dots, none, .base .other (← since lower.start) [] none lower.outlines⟩

/-- A range without a lower bound, or the two dots for the rest. -/
def patternRangeTo (G : Productions) : Parser Pattern := do
  let dots ← here
  let closed ← if ← marksIf "..=" then pure true else (do marks ".."; return false)
  match ← rangeBound G with
  | some upper =>
    return ⟨.openRange dots, none, .base .other (← since dots) [] none upper.outlines⟩
  | none =>
    if closed then fail
    return ⟨.rest, none, .base .other (← since dots) [] none []⟩

/-- One field of a struct pattern, behind its attributes. -/
def fieldPattern (G : Productions) : Parser (List Outline) := do
  let boxed ← wordIf "box"
  let byRef ← wordIf "ref"
  let mutable ← wordIf "mut"
  let ts ← ahead
  if boxed || byRef || mutable then
    let _ ← identifier
    return []
  else if atIdentifier ts then
    skip 1
    if ← marksIf ":" then return (← alternatives G).outlines else return []
  else
    match ts with
    | .literal text _ :: _ =>
      if (tupleIndex? text).isNone then fail
      skip 1
      marks ":"
      return (← alternatives G).outlines
    | _ => fail

/-- The inside of the braces of a struct pattern. -/
def fieldPatterns (G : Productions) : Parser (List Outline) :=
  loop (fun found => do
    if ← atEnd then return .done found
    let found := found ++ (← outerAttributes G)
    if ← marksIf ".." then return .done found
    let found := found ++ (← fieldPattern G)
    if ← atEnd then return .done found
    marks ","
    return .more found) []

/-- A pattern that starts with a path. -/
def pathPattern (G : Productions) : Parser Pattern := do
  let start ← here
  let path ← path G true
  let ts ← ahead
  if isInvocation path ts then
    let braced ← invocationRest
    return ⟨.other, none, .base (.invocation path.name braced) (← since start) [] none []⟩
  else if atGroup .brace ts then
    let fields ← group .brace (fieldPatterns G)
    Pattern.plain start (path.outlines ++ fields)
  else if atGroup .paren ts then
    let elements ← group .paren (terminated (return (← alternatives G).outlines))
    Pattern.plain start (path.outlines ++ elements)
  else
    let body ← pathExpr path start
    if atMarks ".." ts then patternRange G body else return ⟨.other, none, body⟩

/-- A name, perhaps with a pattern for the value it is bound to. -/
def namePattern (G : Productions) : Parser Pattern := do
  let start ← here
  let _ ← wordIf "ref"
  let _ ← wordIf "mut"
  let name ← identifierOr ["self"]
  let inside ← if ← marksIf "@" then pure (← G.pattern).outlines else pure []
  return ⟨.other, some name, .base .other (← since start) [] none inside⟩

/-- The elements of a slice pattern. A range that lacks a bound has to stand in parentheses. -/
def sliceElements (G : Productions) : Parser (List Outline) :=
  terminated do
    let element ← alternatives G
    match element.shape with
    | .openRange dots => failAt dots
    | _ => return element.outlines

/-- The start of a pattern that is a path with something behind it. -/
def atPathPattern (ts : List Token) : Bool :=
  let second := ts.drop 1
  (atIdentifier ts &&
    (atMarks "::" second || atMarks "!" second || atGroup .brace second || atGroup .paren second ||
      atMarks ".." second)) ||
    (atWord "self" ts && atMarks "::" second) || atMarks "::" ts || atMarks "<" ts ||
    atWordOf ["Self", "super", "crate"] ts

/-- A pattern without alternatives. -/
def pattern (G : Productions) : Parser Pattern := do
  let start ← here
  let ts ← ahead
  if atPathPattern ts then pathPattern G
  else if ← wordIf "_" then Pattern.plain start []
  else if ← wordIf "box" then
    let _ ← G.pattern
    Pattern.silent start
  else if atMarks "-" ts || atLiteral ts || atWord "const" ts then
    match ← rangeBound G with
    | some lower =>
      if atMarks ".." (← ahead) then patternRange G lower else return ⟨.other, none, lower⟩
    | none => fail
  else if atWordOf ["ref", "mut", "self"] ts || atIdentifier ts then namePattern G
  else if ← marksIf "&" then
    let _ ← wordIf "mut"
    Pattern.plain start (← G.pattern).outlines
  else if atGroup .paren ts then
    let inside ← group .paren (terminated (return (← alternatives G).outlines))
    Pattern.plain start inside
  else if atGroup .bracket ts then
    let inside ← group .bracket (sliceElements G)
    Pattern.plain start inside
  else if atMarks ".." ts && !atMarks "..." ts then patternRangeTo G
  else fail

end Arborist.Grammar
