import Arborist.Glob.Basic

/-!
# `Arborist.Glob.Exclusion`: the patterns that exclude files

In these patterns `?` and `*` also match slashes, `**` stands alone between slashes and matches any
number of directories, and brackets hold characters and ranges. A pattern that breaks these rules is
none.
-/

set_option autoImplicit false

namespace Arborist.Glob

/-- The characters and ranges between brackets: two characters with a dash between them are a
range. -/
def exclusionRanges : List Char → List CharRange
  | low :: '-' :: high :: cs => (low, high) :: exclusionRanges cs
  | c :: cs => (c, c) :: exclusionRanges cs
  | [] => []

/-- Where the reader of an exclusion pattern stands. -/
inductive ExclusionState where
  /-- Outside brackets; with the character before, none at the start. -/
  | outside (before : Option Char)
  /-- Inside brackets; with the characters so far, the last one first. -/
  | inside (negated : Bool) (chars : List Char)

/-- Reads the rest of an exclusion pattern. The first character inside brackets does not close
them. -/
def exclusionFrom? : ExclusionState → List Char → Option Glob
  | .outside _, [] => some []
  | .outside before, '*' :: '*' :: cs =>
    if before.all (· = '/') then
      match cs with
      | [] => some [.run true]
      | ['/'] => some [.run true]
      | '/' :: cs => (exclusionFrom? (.outside (some '/')) cs).map (.directories :: ·)
      | _ :: _ => none
    else none
  | .outside _, '*' :: cs => (exclusionFrom? (.outside (some '*')) cs).map (.run true :: ·)
  | .outside _, '?' :: cs => (exclusionFrom? (.outside (some '?')) cs).map (.single true :: ·)
  | .outside _, '[' :: '!' :: cs => exclusionFrom? (.inside true []) cs
  | .outside _, '[' :: cs => exclusionFrom? (.inside false []) cs
  | .outside _, c :: cs => (exclusionFrom? (.outside (some c)) cs).map (.char c :: ·)
  | .inside _ _, [] => none
  | .inside negated chars, c :: cs =>
    if c = ']' ∧ chars ≠ [] then
      (exclusionFrom? (.outside (some ']')) cs).map
        (.oneOf negated (exclusionRanges chars.reverse) :: ·)
    else exclusionFrom? (.inside negated (c :: chars)) cs

/-- Reads an exclusion pattern. -/
def exclusion? (pattern : String) : Option Glob := exclusionFrom? (.outside none) pattern.toList

end Arborist.Glob
