import Arborist.Text.WhiteSpace
import Arborist.Text.Width

/-!
# `Arborist.Text.Wrap`: filling paragraphs

A paragraph is broken into rows at its spaces. A row takes as many words as fit, and a word that
fits into no row is cut. The spaces at a break are dropped.
-/

set_option autoImplicit false

namespace Arborist.Text

/-- A word and the spaces behind it. -/
structure Word where
  body : List Char := []
  blanks : List Char := []
  deriving DecidableEq, Repr

/-- The words of a line; spaces in front belong to an empty word. -/
def words : List Char → List Word
  | [] => []
  | c :: cs =>
    match words cs with
    | [] => if c = ' ' then [⟨[], [c]⟩] else [⟨[c], []⟩]
    | word :: rest =>
      if c ≠ ' ' then { word with body := c :: word.body } :: rest
      else if word.body.isEmpty then { word with blanks := c :: word.blanks } :: rest
      else ⟨[], [c]⟩ :: word :: rest

/-- Cuts characters into parts of at most `limit` columns. `part` holds the part so far, last
character first, and `used` its columns. -/
def cutFrom (limit : Nat) : (part : List Char) → (used : Nat) → List Char → List (List Char)
  | part, _, [] => [part.reverse]
  | part, used, c :: cs =>
    if used + width c > limit && !part.isEmpty then part.reverse :: cutFrom limit [c] (width c) cs
    else cutFrom limit (c :: part) (used + width c) cs

/-- The word in parts of at most `limit` columns; the spaces stay with the last part. -/
def Word.cut (limit : Nat) (word : Word) : List Word :=
  if widthOf word.body ≤ limit then [word]
  else match (cutFrom limit [] 0 word.body).reverse with
    | [] => [word]
    | last :: parts => parts.reverse.map (⟨·, []⟩) ++ [⟨last, word.blanks⟩]

/-- The widths of rows and what stands in front of them. -/
structure RowShape where
  width : Nat
  /-- In front of the first row. -/
  first : List Char
  /-- In front of all other rows. -/
  other : List Char
  deriving Repr

namespace RowShape

/-- The columns for words in a row. -/
def room (shape : RowShape) (row : Nat) : Nat :=
  shape.width - widthOf (if row = 0 then shape.first else shape.other)

/-- Puts words into rows, each as soon as it fits. `row` holds the words of the current row, last
one first, and `used` their columns with the spaces behind them. -/
def place (shape : RowShape) : (index : Nat) → (row : List Word) → (used : Nat) → List Word →
    List (List Word)
  | _, row, _, [] => [row.reverse]
  | index, row, used, word :: rest =>
    let size := widthOf word.body
    if used + size > shape.room index && !row.isEmpty then
      row.reverse :: shape.place (index + 1) [word] (size + widthOf word.blanks) rest
    else shape.place index (word :: row) (used + size + widthOf word.blanks) rest

/-- The text of a row, without the spaces at its end. -/
def rowText : List Word → List Char
  | [] => []
  | [word] => word.body
  | word :: rest => word.body ++ word.blanks ++ rowText rest

/-- The rows for one line. The empty word in front lets a first word that does not fit move to the
second row. -/
def rows (shape : RowShape) (line : List Char) : List (List Char) :=
  (shape.place 0 [] 0 ({} :: (words line).flatMap (Word.cut (shape.room 1)))).map rowText

/-- The rows for a text, each line on its own. -/
def fill (shape : RowShape) (text : String) : List String :=
  ((splitAll '\n' text.toList).flatMap shape.rows).zipIdx.map fun (row, index) =>
    String.ofList ((if index = 0 then shape.first else shape.other) ++ row)

end RowShape

end Arborist.Text
