import Arborist.Diagnostic
import Arborist.Text.Bytes
import Arborist.Text.Wrap

/-!
# `Arborist.Command.Excerpt`: diagnostics with the source around them

An excerpt shows the lines that a diagnostic covers and one line before and after them. A range
within a line is underlined; a range over several lines is marked by a bar beside them.
-/

set_option autoImplicit false

namespace Arborist

/-- A line of a source text with its place in it. -/
structure SourceLine where
  /-- Counted from 1. -/
  number : Nat
  /-- Offset of the first byte. -/
  start : Nat
  /-- Offset behind the line and its end mark. -/
  stop : Nat
  /-- The text without the end mark. -/
  text : List Char
  deriving DecidableEq, Repr

namespace SourceLine

/-- The number of bytes of a text. -/
def byteSize (cs : List Char) : Nat := (cs.map Char.utf8Size).foldr (· + ·) 0

/-- The lines of the pieces between line feeds; the last piece has none behind it and is no line if
it is empty. -/
def ofPieces : (number start : Nat) → List (List Char) → List SourceLine
  | _, _, [] => []
  | number, start, [last] =>
    if last.isEmpty then [] else [⟨number, start, start + byteSize last, last⟩]
  | number, start, piece :: rest =>
    let stop := start + byteSize piece + 1
    ⟨number, start, stop, (Text.dropEnd? ['\r'] piece).getD piece⟩ ::
      ofPieces (number + 1) stop rest

/-- The lines of a text. -/
def ofText (text : String) : List SourceLine := ofPieces 1 0 (Text.splitAll '\n' text.toList)

/-- The offset lies in the line or its end mark. -/
def covers (l : SourceLine) (offset : Nat) : Bool := l.start ≤ offset && offset < l.stop

/-- The whole range lies in the line. -/
def contains (l : SourceLine) (range : TextRange) : Bool :=
  l.start ≤ range.start && range.stop ≤ l.stop

/-- The width of a tab stop. -/
def tabWidth : Nat := 4

/-- The columns of each character, from a column on; a tab goes to the next tab stop. -/
def widths : (column : Nat) → List Char → List (Char × Nat)
  | _, [] => []
  | column, c :: cs =>
    let size := if c = '\t' then tabWidth - column % tabWidth else Text.width c
    (c, size) :: widths (column + size) cs

/-- The text with spaces in place of tabs. -/
def display (l : SourceLine) : String :=
  String.ofList ((widths 0 l.text).flatMap fun (c, size) =>
    if c = '\t' then List.replicate size ' ' else [c])

/-- The column at an offset: the columns of the characters before it, and one more beyond the
text. -/
def column (l : SourceLine) (offset : Nat) : Nat :=
  let inside := (widths 0 l.text).zip (l.text.zipIdx.map fun (_, i) =>
    l.start + byteSize (l.text.take i))
  let before := (inside.filter fun (_, at_) => at_ < offset).map fun ((_, size), _) => size
  before.foldr (· + ·) 0 + if offset > l.start + byteSize l.text then 1 else 0

end SourceLine

namespace Excerpt

/-- The number of lines around the range that are shown. -/
def contextLines : Nat := 1

/-- The lines to show for a range. -/
def shownLines (content : String) (range : TextRange) : List SourceLine :=
  let lines := SourceLine.ofText content
  let numberAt (offset : Nat) := ((lines.find? (·.covers offset)).map (·.number)).getD 1
  let first := numberAt range.start
  let last := numberAt (max range.start (range.stop - 1))
  lines.filter fun l => first ≤ l.number + contextLines && l.number ≤ last + contextLines

/-- `text` with spaces in front, up to a width. -/
def padStart (width : Nat) (text : String) : String :=
  String.ofList (List.replicate (width - text.length) ' ') ++ text

def repeated (c : Char) (count : Nat) : String := String.ofList (List.replicate count c)

/-- What stands in front of a line with a number. -/
def numbered (width : Nat) (l : SourceLine) : String :=
  " " ++ padStart width (toString l.number) ++ " │ "

/-- What stands in front of a row without a number. -/
def unnumbered (width : Nat) : String := " " ++ padStart width "" ++ " · "

/-- The mark beside a line for a range over several lines. -/
def barBeside (range : TextRange) (l : SourceLine) : String :=
  if l.covers range.start then "╭─▶ "
  else if l.start ≤ range.stop && range.stop ≤ l.stop && range.start < l.start then "├─▶ "
  else if range.start < l.start && l.stop < range.stop then "│   "
  else "    "

/-- The underline of a range within a line and the rows below it. -/
def underline (width : Nat) (range : TextRange) (label : String) (l : SourceLine) : List String :=
  let start := l.column range.start
  let stop := if range.isEmpty then start + 1 else max (l.column range.stop) (start + 1)
  let middle := (start + stop) / 2
  let mark := if range.isEmpty then "▲" else "┬"
  [unnumbered width ++ repeated ' ' start ++ repeated '─' (middle - start) ++ mark ++
      repeated '─' (stop - middle - 1),
    unnumbered width ++ repeated ' ' middle ++ "╰── " ++ label]

/-- The rows for one line. -/
def rowsOf (width : Nat) (range : TextRange) (label : String) (l : SourceLine) : List String :=
  (numbered width l ++ l.display) ::
    if l.covers range.start then underline width range label l else []

/-- The rows for one line beside the bar of a range over several lines. -/
def barredRowsOf (width : Nat) (range : TextRange) (label : String) (l : SourceLine) :
    List String :=
  let row := numbered width l ++ barBeside range l ++ l.display
  if range.start < l.start && l.start ≤ range.stop && range.stop ≤ l.stop then
    [row, unnumbered width ++ "╰──── " ++ label]
  else [row]

/-- The source around a range, with the name of the file. -/
def snippet (name content : String) (range : TextRange) (label : String) : List String :=
  let lines := shownLines content range
  let width := ((lines.getLast?.map fun l => (toString l.number).length)).getD 1
  let place := match (SourceLine.ofText content).find? (·.covers range.start) with
    | some l => s!"{name}:{l.number}:{range.start - l.start + 1}"
    | none => s!"{name}:1:1"
  let rows := if lines.any (·.contains range) then lines.flatMap (rowsOf width range label)
    else lines.flatMap (barredRowsOf width range label)
  [repeated ' ' (width + 2) ++ "╭─[" ++ place ++ "]"] ++ rows ++
    [repeated ' ' (width + 2) ++ "╰────"]

/-- The width of the paragraphs. -/
def paragraphWidth : Nat := 78

/-- The headline. -/
def headline (d : Diagnostic) : List String :=
  Text.RowShape.fill ⟨paragraphWidth, "  × ".toList, "  │ ".toList⟩ d.headline

/-- The advice below the source, if there is any. -/
def advice (d : Diagnostic) : List String :=
  match d.correction with
  | some correction =>
    Text.RowShape.fill ⟨paragraphWidth, "  help: ".toList, "        ".toList⟩ correction
  | none => []

/-- A diagnostic with the source around it. -/
def render (name content : String) (d : Diagnostic) : String :=
  String.join ((headline d ++ snippet name content d.range d.rule ++ advice d).map (· ++ "\n"))

end Excerpt

end Arborist
