import Arborist.Text.Bytes

/-!
# `Arborist.Text.LineIndex`: offsets as lines and columns

A `LineIndex` holds a buffer and the offset at which each of its lines starts. Lines end after a
line feed, so a carriage return before it belongs to the line. Columns count characters.

`lineColumn` is total: an offset past the end answers as the end does, and an offset inside a
character counts bytes instead of characters. `offset?` goes back, from a one-based line and a
zero-based column to an offset.
-/

set_option autoImplicit false

namespace Arborist

/-- A one-based line and a one-based column in characters. -/
structure LineColumn where
  line : Nat
  column : Nat
  deriving DecidableEq, Repr, Inhabited

namespace Text

/-- The offsets just after each line feed of `cs`, when `cs` starts at `offset`. -/
def lineStartsFrom : List Char → Nat → List Nat
  | [], _ => []
  | c :: cs, offset =>
    let next := offset + c.utf8Size
    if c = '\n' then next :: lineStartsFrom cs next else lineStartsFrom cs next

end Text

/-- A buffer with the offsets at which its lines start. -/
structure LineIndex where
  text : String
  starts : List Nat
  deriving Repr

namespace LineIndex

/-- Indexes `text`. -/
def ofText (text : String) : LineIndex :=
  ⟨text, 0 :: Text.lineStartsFrom text.toList 0⟩

/-- Length of the buffer in bytes. -/
def length (index : LineIndex) : Nat := index.text.utf8ByteSize

/-- Number of lines; an empty buffer has one empty line. -/
def lineCount (index : LineIndex) : Nat := index.starts.length

/-- Zero-based line of `offset`: the last line that starts at or before it. -/
def lineOf (index : LineIndex) (offset : Nat) : Nat :=
  (index.starts.filter (· ≤ min offset index.length)).length - 1

/-- Offset at which the zero-based `line` starts. -/
def lineStart? (index : LineIndex) (line : Nat) : Option Nat := index.starts[line]?

/-- Line and column of a byte offset. -/
def lineColumn (index : LineIndex) (offset : Nat) : LineColumn :=
  let offset := min offset index.length
  let line := index.lineOf offset
  let start := (index.lineStart? line).getD 0
  let column := match Text.sliceChars index.text.toList start offset with
    | some cs => cs.length
    | none => offset - start
  ⟨line + 1, column + 1⟩

/-- Offset of the character at zero-based `column` of the one-based `line`. The line feed is the
last character of its line, so a column past the end of the line gives the offset behind the line
feed; there is no answer for a line that does not exist. -/
def offset? (index : LineIndex) (line column : Nat) : Option Nat :=
  if line = 0 then none else do
    let start ← index.lineStart? (line - 1)
    let stop := (index.lineStart? line).getD index.length
    let cs ← Text.sliceChars index.text.toList start stop
    return start + Text.byteLength (cs.take column)

end LineIndex

end Arborist
