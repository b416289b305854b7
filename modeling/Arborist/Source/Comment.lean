import Arborist.Text.WhiteSpace

/-!
# `Arborist.Source.Comment`: blanks and comments

Each function looks at the characters ahead and answers how many of them belong to the thing it
looks for. Block comments nest. A comment with a third slash or star, or with an exclamation mark,
documents the item after it or around it; one with a fourth is an ordinary comment again.
-/

set_option autoImplicit false

namespace Arborist.Source

/-- White space between tokens. The two direction marks count as such. -/
def isBlank (c : Char) : Bool :=
  Text.isWhiteSpace c || c == '\u200e' || c == '\u200f'

/-- Number of characters up to and with the end of a block comment that is `depth` levels deep. -/
def blockRest? (depth : Nat) : List Char → Option Nat
  | '/' :: '*' :: rest => (blockRest? (depth + 1) rest).map (· + 2)
  | '*' :: '/' :: rest => if depth ≤ 1 then some 2 else (blockRest? (depth - 1) rest).map (· + 2)
  | _ :: rest => (blockRest? depth rest).map (· + 1)
  | [] => none

/-- Length of the block comment ahead. -/
def blockComment? : List Char → Option Nat
  | '/' :: '*' :: rest => (blockRest? 1 rest).map (· + 2)
  | _ => none

/-- Number of characters before the end of the line, which a line feed ends, alone or after a
carriage return. -/
def lineLength : List Char → Nat
  | [] => 0
  | '\n' :: _ => 0
  | '\r' :: '\n' :: _ => 0
  | _ :: rest => lineLength rest + 1

/-- Number of characters that reading to the end of the line takes up: a carriage return in front
of the line feed is one of them. -/
def lineAdvance (cs : List Char) : Nat :=
  let n := lineLength cs
  match cs.drop n with
  | '\r' :: _ => n + 1
  | _ => n

/-- Length of the blank or the ordinary comment ahead. -/
def blank? : List Char → Option Nat
  | '/' :: '/' :: '/' :: '/' :: rest => some (lineAdvance rest + 4)
  | '/' :: '/' :: '/' :: _ => none
  | '/' :: '/' :: '!' :: _ => none
  | '/' :: '/' :: rest => some (lineAdvance rest + 2)
  | '/' :: '*' :: '*' :: '/' :: _ => some 4
  | '/' :: '*' :: '*' :: '*' :: rest => blockComment? ('/' :: '*' :: '*' :: '*' :: rest)
  | '/' :: '*' :: '*' :: _ => none
  | '/' :: '*' :: '!' :: _ => none
  | '/' :: '*' :: rest => blockComment? ('/' :: '*' :: rest)
  | c :: _ => if isBlank c then some 1 else none
  | [] => none

/-- The first characters after all blanks and ordinary comments; `steps` bounds their number. -/
def skipBlanks : Nat → List Char → List Char
  | 0, cs => cs
  | steps + 1, cs =>
    match blank? cs with
    | some n => skipBlanks steps (cs.drop n)
    | none => cs

/-- A documentation comment. -/
structure DocComment where
  /-- It documents the item around it. -/
  inner : Bool
  text : List Char
  /-- Number of characters of the whole comment. -/
  length : Nat
  deriving Repr

/-- Every carriage return is followed by a line feed. -/
def returnsPaired : List Char → Bool
  | '\r' :: '\n' :: rest => returnsPaired rest
  | '\r' :: _ => false
  | _ :: rest => returnsPaired rest
  | [] => true

/-- The documentation comment that goes on to the end of the line. -/
def lineDoc (inner : Bool) (rest : List Char) : DocComment :=
  ⟨inner, rest.take (lineLength rest), lineAdvance rest + 3⟩

/-- The documentation comment between stars. -/
def blockDoc? (inner : Bool) (cs : List Char) : Option DocComment :=
  (blockComment? cs).map fun n => ⟨inner, (cs.take (n - 2)).drop 3, n⟩

/-- The documentation comment ahead. A carriage return may stand in it only in front of a line
feed. -/
def docComment? (cs : List Char) : Option DocComment := do
  let doc ← match cs with
    | '/' :: '/' :: '!' :: rest => some (lineDoc true rest)
    | '/' :: '*' :: '!' :: _ => blockDoc? true cs
    | '/' :: '/' :: '/' :: '/' :: _ => none
    | '/' :: '/' :: '/' :: rest => some (lineDoc false rest)
    | '/' :: '*' :: '*' :: '*' :: _ => none
    | '/' :: '*' :: '*' :: _ => blockDoc? false cs
    | _ => none
  if returnsPaired doc.text then some doc else none

end Arborist.Source
