import Arborist.Text.Range

/-!
# `Arborist.Fix.Edit`: replacing ranges of a text

An edit replaces one byte range of a text. A script is a list of edits against the same text; it can
be applied if its edits come in order, do not conflict and cut the text between characters.
`applyEdits` does so in one pass from the left.
-/

set_option autoImplicit false

namespace Arborist

/-- A replacement for one range of a text. An empty range inserts, an empty replacement deletes. -/
structure Edit where
  range : TextRange
  replacement : String
  deriving DecidableEq, Repr, Inhabited

namespace Edit

/-- `a` does not come after `b` in the text. -/
def le (a b : Edit) : Bool := a.range.le b.range

/-- The edits in the order of the text; edits with the same range keep their order. -/
def sort (edits : List Edit) : List Edit := edits.mergeSort le

end Edit

/-- Why edits cannot be made. -/
inductive FixError where
  | empty
  | unknownDiagnostic (position : Nat)
  | inverted (range : TextRange)
  | outOfBounds (range : TextRange) (length : Nat)
  | outsideDiagnostic (range allowed : TextRange)
  | overlapping (first second : TextRange)
  deriving DecidableEq, Repr

namespace FixError

def message : FixError → String
  | .empty => "proposal has no edits"
  | .unknownDiagnostic position => s!"proposal references unknown diagnostic {position}"
  | .inverted range => s!"edit range {range.render} is inverted"
  | .outOfBounds range length =>
    s!"edit range {range.render} is outside the buffer of {length} bytes"
  | .outsideDiagnostic range allowed =>
    s!"edit range {range.render} is outside the allowed range {allowed.render}"
  | .overlapping first second => s!"edits {first.render} and {second.render} overlap"

end FixError

namespace Edit

/-- `range` may follow `previous` in a script. -/
def follows (previous range : TextRange) : Bool :=
  previous.stop ≤ range.start && !previous.conflictsWith range

/-- The text from the end of the range `previous` on, with the edits made; from the beginning if
there is none. -/
def applyFrom (source : List Char) : (previous : Option TextRange) → List Edit →
    Except FixError (List Char)
  | previous, [] => .ok ((Text.dropBytes source ((previous.map (·.stop)).getD 0)).getD [])
  | previous, edit :: edits =>
    let range := edit.range
    match previous.filter (fun p => !follows p range) with
    | some p => .error (.overlapping p range)
    | none =>
      match Text.sliceChars source ((previous.map (·.stop)).getD 0) range.start,
          Text.sliceChars source range.start range.stop with
      | some kept, some _ => do
        let rest ← applyFrom source (some range) edits
        return kept ++ edit.replacement.toList ++ rest
      | _, _ => .error (.outOfBounds range (Text.byteLength source))

end Edit

/-- The text with all edits of a script made. -/
def applyEdits (source : String) (edits : List Edit) : Except FixError String :=
  (Edit.applyFrom source.toList none edits).map String.ofList

end Arborist
