import Arborist.Path
import Mathlib.Data.String.Basic
import Mathlib.Order.Compare

/-!
# `Arborist.Proofs.Path`: the order of paths

Paths are ordered by their components, so that two spellings of one path compare as equal and every
other two paths come in one order: `le_trans`, `le_total`, `compare_eq_of_le`.
-/

set_option autoImplicit false

namespace Arborist.Path

/-- The name that a component has; only names have one. -/
def Component.label : Component → String
  | .normal name => name
  | _ => ""

/-- Components are ordered by kind and then by name. -/
theorem Component.compare_eq (a b : Component) :
    a.compare b = (Ord.compare a.rank b.rank).then (Ord.compare a.label b.label) := by
  -- Kinds that differ decide; of equal kinds only two names need the second comparison.
  cases a <;> cases b <;> rfl

instance : Std.TransCmp Component.compare := by
  have heq : Component.compare =
      compareLex (compareOn Component.rank) (compareOn Component.label) := by
    funext a b
    exact Component.compare_eq a b
  rw [heq]
  infer_instance

/-- Component lists are compared in dictionary order, so the facts about that order apply. In
particular, a list comes before every longer one that starts with it. -/
theorem compareComponents_eq (as bs : List Component) :
    compareComponents as bs = List.compareLex Component.compare as bs := by
  induction as generalizing bs with
  | nil =>
      cases bs with
      | nil => rw [compareComponents, List.compareLex_nil_nil]
      | cons b bs => rw [compareComponents, List.compareLex_nil_cons]
  | cons a as ih =>
      cases bs with
      | nil => rw [compareComponents, List.compareLex_cons_nil]
      | cons b bs => rw [compareComponents, List.compareLex_cons_cons, ih]

/-- Paths are compared by their components, and what is between the components does not count. -/
theorem compare_eq (a b : String) :
    compare a b = List.compareLex Component.compare (components a) (components b) :=
  compareComponents_eq _ _

/-- The order as a truth value and as a comparison. -/
theorem le_iff {a b : String} : le a b = true ↔ (compare a b).isLE = true := by
  rw [le]
  cases compare a b <;> decide

/-- The order of paths is transitive. -/
theorem le_trans {a b c : String} (hab : le a b = true) (hbc : le b c = true) :
    le a c = true := by
  rw [le_iff, compare_eq] at *
  exact Std.TransCmp.isLE_trans hab hbc

/-- Comparing the other way around gives the opposite answer. -/
theorem compare_swap (a b : String) : compare b a = (compare a b).swap := by
  rw [compare_eq, compare_eq]
  exact Std.OrientedCmp.eq_swap

/-- Paths that differ differ both ways. -/
theorem compare_ne_eq_symm {a b : String} (h : compare a b ≠ .eq) : compare b a ≠ .eq := by
  rw [compare_swap a b]
  cases heq : compare a b with
  | eq => exact absurd heq h
  | lt | gt => decide

/-- Of two paths one comes first, or they are the same. -/
theorem le_total (a b : String) : (le a b || le b a) = true := by
  rw [Bool.or_eq_true, le_iff, le_iff, compare_swap a b]
  cases compare a b <;> decide

/-- Paths that do not come after each other have the same components. -/
theorem compare_eq_of_le {a b : String} (hab : le a b = true) (hba : le b a = true) :
    compare a b = .eq := by
  rw [le_iff] at hab hba
  rw [compare_swap a b] at hba
  cases h : compare a b with
  | eq => rfl
  | lt | gt => simp [h] at hab hba

end Arborist.Path
