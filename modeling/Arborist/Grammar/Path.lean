import Arborist.Grammar.Attribute

/-!
# `Arborist.Grammar.Path`: paths and generic arguments

In an expression an opening angle bracket is a comparison, so there generic arguments need a
separator in front; in a type they do not.
-/

set_option autoImplicit false

namespace Arborist.Grammar

open Grammar.Parser
open Source (Token)

/-- What stands behind a word of a path. -/
inductive Arguments where
  | none
  | angle (empty : Bool)
  | paren
  deriving DecidableEq, Repr

/-- One word of a path. -/
structure Segment where
  name : String
  arguments : Arguments
  deriving Repr

/-- A path that was read. -/
structure PathPhrase where
  /-- A self type in angle brackets stands in front. -/
  qualified : Bool
  leading : Bool
  segments : List Segment
  /-- What the self type and the arguments contribute. -/
  outlines : List Outline
  deriving Repr

namespace PathPhrase

/-- The words with separators between them. -/
def name (p : PathPhrase) : String := String.intercalate "::" (p.segments.map Segment.name)

/-- No word has arguments. -/
def isPlain (p : PathPhrase) : Bool := p.segments.all (·.arguments = .none)

/-- The last word has no arguments. -/
def takesParentheses (p : PathPhrase) : Bool :=
  match p.segments.getLast? with
  | some s => s.arguments = .none || s.arguments = .angle true
  | none => false

/-- One word, perhaps with angle brackets. -/
def isSimple (p : PathPhrase) : Bool :=
  match p.qualified, p.leading, p.segments with
  | false, false, [s] => s.arguments ≠ .paren
  | _, _, _ => false

/-- With parentheses behind the last word. -/
def withParentheses (p : PathPhrase) (outlines : List Outline) : PathPhrase :=
  let segments := p.segments.dropLast ++
    match p.segments.getLast? with
    | some s => [{ s with arguments := .paren }]
    | none => []
  { p with segments, outlines := p.outlines ++ outlines }

end PathPhrase

/-- A constant among generic arguments: a literal, a name, or a block. -/
def constantArgument (G : Productions) : Parser (List Outline) := do
  let ts ← ahead
  if atLiteral ts then return [← literal]
  else if atIdentifier ts then
    let start ← here
    let name ← identifier
    return [.leaf .path (← since start) (some name)]
  else if atGroup .brace ts then
    let (attributes, block) ← blockWithAttributes G
    return attributes ++ [block]
  else fail

/-- What follows a one-word type among generic arguments: a value for it, bounds, or nothing. -/
def argumentBinding (G : Productions) : Parser (List Outline) := do
  if ← marksIf "=" then
    let ts ← ahead
    if atLiteral ts || atGroup .brace ts then constantArgument G
    else return (← G.type true).outlines
  else if ← marksIf ":" then
    separated "+" (fun ts => atMarks "," ts || atMarks ">" ts)
      (return (← G.bound false true).outlines)
  else return []

/-- One generic argument. -/
def genericArgument (G : Productions) : Parser (List Outline) := do
  let ts ← ahead
  if atLifetime ts && !atMarks "+" (ts.drop 1) then
    skip 1
    return []
  else if atLiteral ts || atGroup .brace ts then constantArgument G
  else
    let type ← G.type true
    match type.shape with
    | .path true => return type.outlines ++ (← argumentBinding G)
    | _ => return type.outlines

/-- Generic arguments in angle brackets; also whether there are none. -/
def angleArguments (G : Productions) : Parser (Bool × List Outline) := do
  marks "<"
  let empty := atMarks ">" (← ahead)
  let inside ← enclosed "," (atMarks ">") (genericArgument G)
  marks ">"
  return (empty, inside)

/-- The type behind an arrow, if there is one. -/
def returnType (G : Productions) (plus : Bool) : Parser (List Outline) := do
  if ← marksIf "->" then return (← G.type plus).outlines else return []

/-- Argument types in parentheses with the result type behind them. -/
def parenArguments (G : Productions) : Parser (List Outline) := do
  let inside ← group .paren (terminated (return (← G.type true).outlines))
  return inside ++ (← returnType G false)

/-- One word of a path with its angle brackets. -/
def segment (G : Productions) (inExpression : Bool) : Parser (Segment × List Outline) := do
  if atWordOf ["super", "self", "crate", "try"] (← ahead) then return (⟨← anyWord, .none⟩, [])
  let name ← identifierOr ["Self"]
  let ts ← ahead
  if (!inExpression && atMarks "<" ts && !atMarks "<=" ts && !atMarks "<<=" ts) ||
      (atMarks "::" ts && atMarks "<" (ts.drop 2)) then
    let _ ← marksIf "::"
    let (empty, inside) ← angleArguments G
    return (⟨name, .angle empty⟩, inside)
  else return (⟨name, .none⟩, [])

/-- The words of a path behind those of `path`, each behind a separator. -/
def pathRest (G : Productions) (inExpression : Bool) (path : PathPhrase) : Parser PathPhrase :=
  loop (fun path => do
    let ts ← ahead
    if atMarks "::" ts && !atGroup .paren (ts.drop 2) then
      skip 2
      let (s, inside) ← segment G inExpression
      return .more { path with
        segments := path.segments ++ [s]
        outlines := path.outlines ++ inside }
    else return .done path) path

/-- A path without a self type. -/
def plainPath (G : Productions) (inExpression : Bool) : Parser PathPhrase := do
  let leading ← marksIf "::"
  let (s, inside) ← segment G inExpression
  pathRest G inExpression ⟨false, leading, [s], inside⟩

/-- The words of a path behind its self type. -/
def qualifiedRest (G : Productions) (inExpression : Bool) (path : PathPhrase) : Parser PathPhrase :=
  loop (fun path => do
    let (s, inside) ← segment G inExpression
    let path := { path with
      segments := path.segments ++ [s]
      outlines := path.outlines ++ inside }
    if ← marksIf "::" then return .more path else return .done path) path

/-- A path, perhaps with a self type in angle brackets in front. -/
def path (G : Productions) (inExpression : Bool) : Parser PathPhrase := do
  if ← marksIf "<" then
    let self ← G.type true
    let trait ← if ← wordIf "as" then plainPath G false else pure ⟨false, true, [], []⟩
    marks ">"
    marks "::"
    qualifiedRest G inExpression
      { trait with qualified := true, outlines := self.outlines ++ trait.outlines }
  else plainPath G inExpression

/-- Parentheses behind a path that may take them. -/
def withParenArguments (G : Productions) (path : PathPhrase) : Parser PathPhrase := do
  let ts ← ahead
  if path.takesParentheses &&
      (atGroup .paren ts || (atMarks "::" ts && atGroup .paren (ts.drop 2))) then
    let _ ← marksIf "::"
    return path.withParentheses (← parenArguments G)
  else return path

/-- An exclamation mark behind `path` that makes it the path of an invocation. -/
def isInvocation (path : PathPhrase) (ts : List Token) : Bool :=
  !path.qualified && atMarks "!" ts && !atMarks "!=" ts && path.isPlain

/-- The exclamation mark and the bracketed sequence of an invocation; the answer is whether the
brackets are braces. -/
def invocationRest : Parser Bool := do
  marks "!"
  let ts ← ahead
  if atGroup .brace ts then
    skip 1
    return true
  else if atGroup .paren ts || atGroup .bracket ts then
    skip 1
    return false
  else fail

end Arborist.Grammar
