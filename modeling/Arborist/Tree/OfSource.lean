import Arborist.Grammar.File
import Arborist.Text.LineIndex
import Arborist.Tree.Builder

/-!
# `Arborist.Tree.OfSource`: from source text to a syntax tree

`SyntaxTree.ofSource` reads a source text and stores its outline in an arena. The places of an
outline are lines and columns of the text behind a leading byte order mark; they are looked up in
the text as a whole. A place that does not exist becomes the end of the text, and a span without a
place an empty range where the node before it starts.

The builder widens every node to cover its children, so ranges always nest. Nothing here checks
that nodes start in order; a text can break that, because attributes at the end of a node's head
come before the rest of the head.
-/

set_option autoImplicit false

namespace Arborist

/-- Why a source text has no tree. -/
inductive SourceError where
  /-- The text cannot be read; both numbers count from 1. Only the place is kept: the
  words on what the grammar expected there, which would stand at the end of the message and nowhere
  else, are left out. -/
  | parse (line column : Nat)
  | tree (error : TreeError)
  deriving DecidableEq, Repr

/-- What to tell the user; for a text that cannot be read, the place alone. -/
def SourceError.message : SourceError → String
  | .parse line column => s!"parse error at {line}:{column}"
  | .tree error => "lowered tree is inconsistent: " ++ error.message

/-- A tree under construction and the start of the last node that was opened. -/
structure OutlineBuilder where
  builder : TreeBuilder
  cursor : Nat
  deriving Repr

namespace OutlineBuilder

/-- Byte offset of a place; the end of the text if there is no such place. -/
def offsetOf (index : LineIndex) (place : Source.Position) : Nat :=
  (index.offset? place.line place.column).getD index.length

/-- Byte range of a span. A span on line 0 has no place of its own. -/
def rangeOf (index : LineIndex) (cursor : Nat) (span : Source.Span) : TextRange :=
  if span.start.line = 0 then .empty cursor
  else
    let start := offsetOf index span.start
    ⟨start, max (offsetOf index span.stop) start⟩

/-- Opens a node. -/
def enter (index : LineIndex) (s : OutlineBuilder) (kind : NodeKind) (span : Source.Span)
    (name : Option String) : OutlineBuilder :=
  let range := rangeOf index s.cursor span
  ⟨s.builder.start kind range name, range.start⟩

/-- Closes the innermost open node. -/
def leave (s : OutlineBuilder) : OutlineBuilder := { s with builder := s.builder.finish }

mutual

/-- Adds an outline with everything inside it. -/
def outline (index : LineIndex) (s : OutlineBuilder) : Grammar.Outline → OutlineBuilder
  | .node kind span name children => (outlines index (s.enter index kind span name) children).leave

/-- Adds outlines one after the other. -/
def outlines (index : LineIndex) (s : OutlineBuilder) : List Grammar.Outline → OutlineBuilder
  | [] => s
  | o :: os => outlines index (outline index s o) os

end

end OutlineBuilder

namespace SyntaxTree

/-- The tree of a file with the given outlines. -/
def ofOutlines (text : String) (outlines : List Grammar.Outline) :
    Except TreeError SyntaxTree :=
  let index := LineIndex.ofText text
  let opened := TreeBuilder.start { fitting := true } .file ⟨0, index.length⟩ none
  (OutlineBuilder.outlines index ⟨opened, 0⟩ outlines).leave.builder.build

/-- Reads a source text into a tree. -/
def ofSource (text : String) : Except SourceError SyntaxTree :=
  match Grammar.outline text with
  | .error place => .error (.parse place.line (place.column + 1))
  | .ok outlines => (ofOutlines text outlines).mapError .tree

end SyntaxTree

end Arborist
