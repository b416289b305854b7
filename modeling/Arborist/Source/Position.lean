/-!
# `Arborist.Source.Position`: places in a source text

The reader of source text counts lines from 1 and columns in characters from 0. Byte offsets come
in only when a tree is built (`Arborist.Tree.OfSource`).
-/

set_option autoImplicit false

namespace Arborist.Source

/-- A place between two characters. -/
structure Position where
  line : Nat
  column : Nat
  deriving DecidableEq, Repr, Inhabited

namespace Position

/-- The first place of a text. -/
def first : Position := ⟨1, 0⟩

/-- The place after the character `c`. -/
def after (p : Position) (c : Char) : Position :=
  if c = '\n' then ⟨p.line + 1, 0⟩ else ⟨p.line, p.column + 1⟩

/-- The place after the characters `cs`. -/
def afterAll (p : Position) (cs : List Char) : Position := cs.foldl after p

/-- `p` comes before `q` or is `q`. -/
def le (p q : Position) : Bool := p.line < q.line || (p.line == q.line && p.column ≤ q.column)

end Position

/-- The text between two places. -/
structure Span where
  start : Position
  stop : Position
  deriving DecidableEq, Repr, Inhabited

/-- The text from the start of `a` to the end of `b`. -/
def Span.to (a b : Span) : Span := ⟨a.start, b.stop⟩

end Arborist.Source
