import Arborist.Text.Bytes

/-!
# `Arborist.Text.Range`: half-open byte ranges

A `TextRange` is a pair of byte offsets. Nothing forces `start ≤ stop`: ranges come from trees
and fix proposals that have not been checked yet, and the checks are stated about them.

Two ranges conflict when they share a byte or start at the same offset. The second condition
makes two insertions at one point conflict although neither covers a byte.
-/

set_option autoImplicit false

namespace Arborist

/-- The bytes from `start` up to but not including `stop`. -/
structure TextRange where
  start : Nat
  stop : Nat
  deriving DecidableEq, Repr, Inhabited

namespace TextRange

/-- The range at `offset` that covers no byte. -/
def empty (offset : Nat) : TextRange := ⟨offset, offset⟩

/-- Number of bytes covered; an inverted range covers none. -/
def length (r : TextRange) : Nat := r.stop - r.start

/-- The range covers no byte. -/
def isEmpty (r : TextRange) : Bool := r.stop ≤ r.start

/-- Every byte of `inner` lies in `outer`, and so do its two ends. -/
def contains (outer inner : TextRange) : Bool :=
  outer.start ≤ inner.start && inner.stop ≤ outer.stop

theorem contains_iff {outer inner : TextRange} :
    outer.contains inner = true ↔ outer.start ≤ inner.start ∧ inner.stop ≤ outer.stop := by
  simp [contains]

/-- The smallest range that reaches from the first start to the last stop. -/
def cover (a b : TextRange) : TextRange := ⟨min a.start b.start, max a.stop b.stop⟩

/-- The range widened by `slack` bytes on both sides, clipped to the first `limit` bytes. -/
def expand (r : TextRange) (slack limit : Nat) : TextRange :=
  ⟨r.start - slack, min (Text.addOffset r.stop slack) limit⟩

/-- The ranges share a byte or start at the same offset. -/
def conflictsWith (a b : TextRange) : Bool :=
  (a.start < b.stop && b.start < a.stop) || a.start == b.start

/-- Position order: by start, then by stop. -/
def compare (a b : TextRange) : Ordering :=
  (Ord.compare a.start b.start).then (Ord.compare a.stop b.stop)

/-- `a` does not come after `b` in position order. -/
def le (a b : TextRange) : Bool :=
  a.start < b.start || (a.start == b.start && a.stop ≤ b.stop)

/-- The range as `start..stop`. -/
def render (r : TextRange) : String := s!"{r.start}..{r.stop}"

end TextRange

end Arborist
