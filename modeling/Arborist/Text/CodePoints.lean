/-!
# `Arborist.Text.CodePoints`: sets of code points as ranges

The tables of this library list a set of code points as closed ranges in increasing order.
-/

set_option autoImplicit false

namespace Arborist.Text

/-- A set of code points, as the closed ranges that make it up. -/
abbrev CodePoints := List (Nat × Nat)

/-- The code point of `c` lies in one of the ranges. -/
def CodePoints.has (ranges : CodePoints) (c : Char) : Bool :=
  ranges.any fun range => range.1 ≤ c.toNat && c.toNat ≤ range.2

end Arborist.Text
