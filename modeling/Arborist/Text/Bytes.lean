/-!
# `Arborist.Text.Bytes`: cutting text at byte offsets

Offsets into a buffer count the bytes of its UTF-8 form, so an offset may fall inside a
character. `dropBytes` and `takeBytes` walk the characters and answer `none` for such an offset
and for one past the end; `slice?` and `isBoundary` are built from them. Nothing here looks at
the encoded bytes themselves: only the width of each character matters.
-/

set_option autoImplicit false

namespace Arborist.Text

/-- Number of bytes that a run of characters takes in UTF-8. -/
def byteLength (cs : List Char) : Nat :=
  (cs.map Char.utf8Size).foldr (· + ·) 0

/-- The characters after the first `n` bytes, or `none` if `n` splits a character or lies past
the end. -/
def dropBytes : List Char → Nat → Option (List Char)
  | cs, 0 => some cs
  | [], _ + 1 => none
  | c :: cs, n + 1 =>
    if c.utf8Size ≤ n + 1 then dropBytes cs (n + 1 - c.utf8Size) else none

/-- The characters that make up the first `n` bytes, or `none` if `n` splits a character or lies
past the end. -/
def takeBytes : List Char → Nat → Option (List Char)
  | _, 0 => some []
  | [], _ + 1 => none
  | c :: cs, n + 1 =>
    if c.utf8Size ≤ n + 1 then (takeBytes cs (n + 1 - c.utf8Size)).map (c :: ·) else none

/-- The characters from byte `start` up to byte `stop`. -/
def sliceChars (cs : List Char) (start stop : Nat) : Option (List Char) :=
  if start ≤ stop then (dropBytes cs start).bind (takeBytes · (stop - start)) else none

/-- The text from byte `start` up to byte `stop`, if both fall between characters of `text`. -/
def slice? (text : String) (start stop : Nat) : Option String :=
  (sliceChars text.toList start stop).map String.ofList

/-- Byte `offset` of `text` falls between two characters, or at one of its ends. -/
def isBoundary (text : String) (offset : Nat) : Bool :=
  (dropBytes text.toList offset).isSome

/-- The largest offset that a buffer position can hold. -/
def maxOffset : Nat := Nat.pow 2 64 - 1

/-- Addition of offsets that stops at `maxOffset`. -/
def addOffset (a b : Nat) : Nat := min (a + b) maxOffset

end Arborist.Text
