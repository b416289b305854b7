import Arborist.Reporter

/-!
# `Arborist.Proofs.Reporter`: the reports under one code

`Reporter.only` keeps what was reported under one code. Reports under other codes leave it alone
(`only_report_of_ne`), a report under this code fares as if nothing else had been reported
(`report_only`), and the final report keeps the same diagnostics in the same order whether the
others are left out before or after (`finalize_only`). The last of these rests on the stability of
the sort: two reports of equal rank keep their order.
-/

set_option autoImplicit false

namespace Arborist

/-! ### The order of a final report -/

namespace Diagnostic

instance : Std.TransCmp Diagnostic.compare :=
  inferInstanceAs (Std.TransCmp (compareLex (compareOn fun d : Diagnostic => d.range.start)
    (compareLex (compareOn fun d : Diagnostic => d.code)
      (compareLex (compareOn fun d : Diagnostic => d.kind.rank)
        (compareOn fun d : Diagnostic => d.range.stop)))))

/-- The order as a truth value and as a comparison. -/
theorem le_iff {a b : Diagnostic} : a.le b = true ↔ (a.compare b).isLE = true := by
  rw [le]
  cases a.compare b <;> decide

/-- The order of diagnostics is transitive, because each of its four keys is. -/
theorem le_trans (a b c : Diagnostic) (hab : a.le b = true) (hbc : b.le c = true) :
    a.le c = true := by
  rw [le_iff] at hab hbc ⊢
  exact Std.TransCmp.isLE_trans hab hbc

/-- Of two diagnostics one comes first, or neither is before the other. -/
theorem le_total (a b : Diagnostic) : (a.le b || b.le a) = true := by
  rw [Bool.or_eq_true, le_iff, le_iff, @Std.OrientedCmp.eq_swap _ Diagnostic.compare _ b a]
  cases a.compare b <;> decide

end Diagnostic

/-! ### Sorting and leaving out -/

section
variable {α : Type} {le : α → α → Bool}

/-- A list has one split into elements with a property and elements without it. The first part is
what the property selects from the whole. -/
theorem split_unique {q : α → Bool} {xs xs' ys ys' : List α} (h : xs ++ ys = xs' ++ ys')
    (hxs : ∀ x ∈ xs, q x = true) (hxs' : ∀ x ∈ xs', q x = true)
    (hys : ∀ y ∈ ys, ¬ q y = true) (hys' : ∀ y ∈ ys', ¬ q y = true) : xs = xs' ∧ ys = ys' := by
  have hfirst : xs = xs' := by
    have hfilter := congrArg (List.filter q) h
    rwa [List.filter_append, List.filter_append, List.filter_eq_self.2 hxs,
      List.filter_eq_self.2 hxs', List.filter_eq_nil_iff.2 hys, List.filter_eq_nil_iff.2 hys',
      List.append_nil, List.append_nil] at hfilter
  subst hfirst
  exact ⟨rfl, List.append_cancel_left h⟩

/-- The sort is stable: to leave elements out and to sort can change places. By induction on the
list: where the first element goes into the rest is the only way to split the sorted rest into what
it comes after and what it does not, and leaving out keeps such a split. -/
theorem filter_mergeSort (htrans : ∀ a b c : α, le a b = true → le b c = true → le a c = true)
    (htotal : ∀ a b : α, (le a b || le b a) = true) (p : α → Bool) (l : List α) :
    (l.mergeSort le).filter p = (l.filter p).mergeSort le := by
  -- Where an element goes into a sorted list: behind all that do not come after it.
  have hbehind : ∀ {a : α} {l xs ys : List α}, (a :: l).mergeSort le = xs ++ a :: ys →
      ∀ y ∈ ys, le a y = true := by
    intro a l xs ys hsort
    have hsorted := List.pairwise_mergeSort htrans htotal (a :: l)
    rw [hsort, List.pairwise_append, List.pairwise_cons] at hsorted
    exact hsorted.2.1.1
  induction l with
  | nil => simp
  | cons a l ih =>
      obtain ⟨xs, ys, hsort, hrest, hxs⟩ := List.mergeSort_cons htrans htotal a l
      rw [hrest, List.filter_append] at ih
      rw [hsort, List.filter_append, List.filter_cons, List.filter_cons]
      by_cases ha : p a = true
      · rw [if_pos ha, if_pos ha]
        obtain ⟨xs', ys', hsort', hrest', hxs'⟩ :=
          List.mergeSort_cons htrans htotal a (l.filter p)
        have hsplit : xs.filter p = xs' ∧ ys.filter p = ys' := by
          refine @split_unique α (fun b => !le a b) _ _ _ _ (ih.trans hrest') ?_ hxs' ?_ ?_
          · exact fun x hx => hxs x (List.mem_filter.1 hx).1
          · intro y hy
            simp [hbehind hsort y (List.mem_filter.1 hy).1]
          · intro y hy
            simp [hbehind hsort' y hy]
        rw [hsort', hsplit.1, hsplit.2]
      · rw [if_neg ha, if_neg ha, ih]

end

namespace Reporter

/-- What was reported under a code. -/
def only (code : String) (r : Reporter) : Reporter :=
  ⟨r.diagnostics.filter (·.code = code)⟩

/-- A report under a code fares as if nothing had been reported under other codes. What makes it a
repetition has the same code. -/
theorem report_only {code : String} {d : Diagnostic} (h : d.code = code) (r : Reporter) :
    (r.only code).report d = ((r.report d).1, (r.report d).2.only code) := by
  have hany : (r.diagnostics.filter (·.code = code)).any (sameReport d) =
      r.diagnostics.any (sameReport d) := by
    rw [List.any_filter]
    congr 1
    funext other
    -- What repeats `d` has its code and is not left out.
    by_cases hsame : sameReport d other = true
    · have hcode : other.code = code := by
        rw [← h]
        exact (of_decide_eq_true hsame).2.1.symm
      simp [hsame, hcode]
    · simp [hsame]
  rw [report, report, only, hany]
  split
  · rfl
  · simp [only, h]

/-- Reports under other codes leave the reports under a code alone. -/
theorem only_report_of_ne {code : String} {d : Diagnostic} (h : d.code ≠ code) (r : Reporter) :
    (r.report d).2.only code = r.only code := by
  rw [report]
  split
  · rfl
  · simp [only, h]

/-- The final report can be restricted to a code before or after. Findings are located, left out and
sorted without regard to other codes. -/
theorem finalize_only (code : String) (r : Reporter) (file : SourceFile)
    (suppressions : Suppressions) :
    (r.only code).finalize file suppressions =
      (r.finalize file suppressions).filter (·.code = code) := by
  rw [finalize, finalize, only]
  rw [filter_mergeSort Diagnostic.le_trans Diagnostic.le_total]
  -- Locating a diagnostic does not change its code.
  simp only [List.filter_map, List.filter_filter, Function.comp_def, Bool.and_comm]

end Reporter

end Arborist
