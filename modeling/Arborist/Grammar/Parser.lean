import Arborist.Grammar.Lookahead
import Arborist.Grammar.Outline

/-!
# `Arborist.Grammar.Parser`: reading tokens

A `Parser` reads tokens from the front of its input and either yields a result or fails at a place:
the token it stopped at, or, when the tokens of a bracketed sequence ran out, its closing bracket.

Tokens that stay unread at the end of a bracketed sequence do not stop the parser. The first of
them is kept in `leftover` and makes the text as a whole wrong, unless something later is wrong too,
which is then reported instead.
-/

set_option autoImplicit false

namespace Arborist.Grammar

open Source (Delimiter Position Span Token)

/-- The tokens still to be read and what is remembered of those before. -/
structure Input where
  rest : List Token
  /-- Where it is reported that the tokens ran out. -/
  scope : Position
  /-- Where the last token ends. -/
  last : Position
  /-- The last token is a sequence in braces. -/
  afterBrace : Bool
  /-- The first token that no rule took. -/
  leftover : Option Position
  deriving Repr

namespace Input

/-- Where a failure is reported. -/
def here (i : Input) : Position :=
  match i.rest with
  | t :: _ => t.start
  | [] => i.scope

/-- After the next token. -/
def next (i : Input) : Input :=
  match i.rest with
  | [] => i
  | t :: ts => { i with rest := ts, last := t.stop, afterBrace := atGroup .brace [t] }

/-- After the next `n` tokens. -/
def skip : Nat → Input → Input
  | 0, i => i
  | n + 1, i => skip n i.next

end Input

/-- Reads tokens, or fails at a place. -/
abbrev Parser (α : Type) := StateT Input (Except Position) α

namespace Parser

variable {α β σ : Type}

/-- Fails at a given place. -/
def failAt (place : Position) : Parser α := fun _ => .error place

/-- Fails at the next token. -/
def fail : Parser α := fun i => .error i.here

/-- The tokens ahead. -/
def ahead : Parser (List Token) := return (← get).rest

/-- The place of the next token. -/
def here : Parser Position := return (← get).here

/-- No tokens are left. -/
def atEnd : Parser Bool := return (← get).rest.isEmpty

/-- Reads `n` tokens whatever they are. -/
def skip (n : Nat) : Parser Unit := modify (Input.skip n)

/-- From `start` to the end of the last token. -/
def since (start : Position) : Parser Span := return ⟨start, (← get).last⟩

/-- Goes back to where it started if `p` fails. -/
def attempt (p : Parser α) : Parser (Option α) := fun i =>
  match p i with
  | .ok (a, j) => .ok (some a, j)
  | .error _ => .ok (none, i)

/-- The result of `p` with the tokens that it read. -/
def withTokens (p : Parser α) : Parser (α × List Token) := do
  let before ← ahead
  let a ← p
  let after ← ahead
  return (a, before.take (before.length - after.length))

/-- Reads a bracketed sequence with `p`. -/
def group (delimiter : Delimiter) (p : Parser α) : Parser α := fun i =>
  match i.rest with
  | t@(.group d inside span) :: rest =>
    if d = delimiter then
      match p { i with rest := inside, scope := t.lastCharacter } with
      | .error place => .error place
      | .ok (a, j) =>
        .ok (a, { i with
          rest := rest
          last := span.stop
          afterBrace := d = .brace
          leftover := j.leftover.or (j.rest.head?.map Token.start) })
    else .error i.here
  | _ => .error i.here

/-- Reads the word if it is next. -/
def wordIf (w : String) : Parser Bool := do
  if atWord w (← ahead) then
    skip 1
    return true
  else return false

def word (w : String) : Parser Unit := do
  if !(← wordIf w) then fail

/-- Reads the marks if they are next. -/
def marksIf (m : String) : Parser Bool := do
  if atMarks m (← ahead) then
    skip m.length
    return true
  else return false

def marks (m : String) : Parser Unit := do
  if !(← marksIf m) then fail

/-- Any word, keywords included. -/
def anyWord : Parser String := do
  match ← ahead with
  | .word text _ :: _ =>
    skip 1
    return text
  | _ => fail

/-- A word that is no keyword. -/
def identifier : Parser String := do
  if atIdentifier (← ahead) then anyWord else fail

/-- A word that is no keyword, or one of `words`. -/
def identifierOr (words : List String) : Parser String := do
  if atWordOf words (← ahead) then anyWord else identifier

def lifetime : Parser Unit := do
  if atLifetime (← ahead) then skip 1 else fail

def lifetimeIf : Parser Bool := do
  if atLifetime (← ahead) then
    skip 1
    return true
  else return false

/-- A literal as a node. -/
def literal : Parser Outline := do
  match ← ahead with
  | .literal text span :: _ =>
    skip 1
    return .leaf (literalKind text) span (some text)
  | .word text span :: _ =>
    if text == "true" || text == "false" then
      skip 1
      return .leaf .boolLiteral span (some text)
    else fail
  | .mark '-' _ minus :: .literal text span :: _ =>
    if isNumberText text then
      skip 2
      return .leaf .numberLiteral (minus.to span) (some ("- " ++ text))
    else fail
  | _ => fail

/-- How a loop goes on. -/
inductive Step (σ β : Type) where
  | more (state : σ)
  | done (result : β)

/-- Runs `step` at most `steps` times. -/
def iterate (step : σ → Parser (Step σ β)) : Nat → σ → Parser β
  | 0, _ => fail
  | steps + 1, state => do
    match ← step state with
    | .more state => iterate step steps state
    | .done result => return result

/-- Runs `step` until it is done. Every step that asks for another one reads a token, so the number
of tokens ahead bounds their number. -/
def loop (step : σ → Parser (Step σ β)) (state : σ) : Parser β := do
  iterate step ((← ahead).length + 2) state

/-- Collects what `p` contributes while `more` holds of the tokens ahead. -/
def whileAhead (more : List Token → Bool) (p : Parser (List Outline)) : Parser (List Outline) :=
  loop (fun found => do
    if more (← ahead) then return .more (found ++ (← p)) else return .done found) []

/-- Collects what `p` contributes until no tokens are left. -/
def untilEnd (p : Parser (List Outline)) : Parser (List Outline) :=
  whileAhead (fun ts => !ts.isEmpty) p

/-- Collects what `p` contributes between commas until no tokens are left. -/
def terminated (p : Parser (List Outline)) : Parser (List Outline) :=
  loop (fun found => do
    if ← atEnd then return .done found
    let found := found ++ (← p)
    if ← atEnd then return .done found
    marks ","
    return .more found) []

/-- Collects what `p` contributes between `separator`s. The list ends where `ends` holds of the
tokens ahead, or behind an element that no separator follows. -/
def separated (separator : String) (ends : List Token → Bool) (p : Parser (List Outline)) :
    Parser (List Outline) :=
  loop (fun found => do
    if ends (← ahead) then return .done found
    let found := found ++ (← p)
    if !(← marksIf separator) then return .done found
    return .more found) []

/-- Collects what `p` contributes between `separator`s until `ends` holds of the tokens ahead. -/
def enclosed (separator : String) (ends : List Token → Bool) (p : Parser (List Outline)) :
    Parser (List Outline) :=
  loop (fun found => do
    if ends (← ahead) then return .done found
    let found := found ++ (← p)
    if ends (← ahead) then return .done found
    marks separator
    return .more found) []

end Parser

/-- The rules that others refer to before they are defined. A rule refers to the others through a
value of this type, and `Arborist.Grammar.File` ties them together. The flag `structs` says that
braces behind a path are a struct expression, `plus` that further bounds may follow a type. -/
structure Productions where
  expression : (structs : Bool) → Parser Expr
  /-- An expression at the start of a statement, which a block-like one ends. -/
  statementExpression : Parser Expr
  /-- An expression without operators behind it. -/
  operand : (structs : Bool) → Parser Expr
  /-- The operators behind `left` that bind at least as tightly as `least`. -/
  operation : (structs : Bool) → (least : Precedence) → (left : Expr) → Parser Expr
  type : (plus : Bool) → Parser TypePhrase
  /-- A bound; `captures` allows `use<…>` and `constant` allows `const`. -/
  bound : (captures constant : Bool) → Parser Bound
  /-- A pattern without alternatives. -/
  pattern : Parser Pattern
  /-- The statements up to the end of the input. -/
  statements : Parser (List Outline)
  /-- The rest of an item behind its attributes, which start at `start`. -/
  item : (start : Position) → (attributes : List Outline) → Parser (List Outline)
  /-- A tree of imports; `root` allows a path separator in front. The answer is whether the tree is
  one that has a node. -/
  imports : (root : Bool) → Parser Bool
  /-- Fields in braces. -/
  namedFields : Parser (List Outline)

end Arborist.Grammar
