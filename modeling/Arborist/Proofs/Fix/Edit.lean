import Arborist.Fix.Edit
import Arborist.Proofs.Text.Bytes

/-!
# `Arborist.Proofs.Fix.Edit`: scripts that can be applied

Three notions of order meet in a script of edits. `TextRange.le` sorts it, `conflictsWith` is what
proposals are tested for, and `Edit.follows` is what the applier asks of neighbours. `Before` ties
them together: a range is before another when it ends no later than the other starts and starts
strictly further left. For ranges that are not inverted, the first two give `Before`
(`before_of_le`), and `Before` gives the third (`follows_of_before`).

`Edit.sort_pairwise_before` says it for lists: edits that do not conflict pairwise, in whatever
order, are pairwise `Before` once sorted. `applyEdits_eq_ok` then says that the applier takes every
such list whose ranges cut the text between characters.
-/

set_option autoImplicit false

namespace Arborist

namespace TextRange

/-- `a` ends no later than `b` starts, and starts strictly further left. The second condition is
not implied: an empty range satisfies the first with itself. -/
def Before (a b : TextRange) : Prop := a.stop ≤ b.start ∧ a.start < b.start

/-- A range that can be cut out of a text: it is not inverted, and both its ends fall between
characters. -/
structure Cuts (text : String) (r : TextRange) : Prop where
  ordered : r.start ≤ r.stop
  start : Text.isBoundary text r.start = true
  stop : Text.isBoundary text r.stop = true

/-- Ranges that do not conflict: they share no byte, and they do not start at the same place. The
second condition says something of empty ranges, which share no byte with anything. -/
theorem conflictsWith_eq_false_iff {a b : TextRange} :
    a.conflictsWith b = false ↔ (a.start < b.stop → a.stop ≤ b.start) ∧ a.start ≠ b.start := by
  simp [conflictsWith]

/-- Conflicts go both ways. -/
theorem conflictsWith_comm (a b : TextRange) : a.conflictsWith b = b.conflictsWith a := by
  rw [conflictsWith, conflictsWith, Bool.and_comm, Bool.beq_comm]

/-- The order of ranges is by start, and by stop among ranges with the same start. -/
theorem le_iff {a b : TextRange} :
    a.le b = true ↔ a.start < b.start ∨ (a.start = b.start ∧ a.stop ≤ b.stop) := by
  simp [le]

/-- Any two ranges can be put in order. -/
theorem le_total (a b : TextRange) : (a.le b || b.le a) = true := by
  rw [Bool.or_eq_true, le_iff, le_iff]
  omega

/-- The order of ranges is transitive, so that a list can be sorted by it. -/
theorem le_trans {a b c : TextRange} (hab : a.le b = true) (hbc : b.le c = true) :
    a.le c = true := by
  rw [le_iff] at *
  omega

/-- In position order, ranges that do not conflict lie one before the other. Only the later one
must not be inverted: an inverted range starts where the earlier one may still reach. -/
theorem before_of_le {a b : TextRange} (hle : a.le b = true) (hb : b.start ≤ b.stop)
    (hfree : a.conflictsWith b = false) : a.Before b := by
  obtain ⟨hdisjoint, hne⟩ := conflictsWith_eq_false_iff.1 hfree
  have hlt : a.start < b.start := by
    rcases le_iff.1 hle with hlt | ⟨heq, -⟩
    · exact hlt
    · exact absurd heq hne
  exact ⟨hdisjoint (by omega), hlt⟩

/-- Ranges of which one is before the other do not conflict. -/
theorem Before.conflictsWith_eq_false {a b : TextRange} (h : a.Before b) :
    a.conflictsWith b = false :=
  conflictsWith_eq_false_iff.2 ⟨fun _ => h.1, by have := h.2; omega⟩

/-- What is before a range is before everything that comes after that range. -/
theorem Before.trans {a b c : TextRange} (hab : a.Before b) (hbc : b.Before c) : a.Before c := by
  obtain ⟨hab₁, hab₂⟩ := hab
  obtain ⟨hbc₁, hbc₂⟩ := hbc
  exact ⟨by omega, by omega⟩

end TextRange

namespace Edit

open TextRange

/-- Sorting edits moves them around and does nothing else. -/
theorem sort_perm (edits : List Edit) : (sort edits).Perm edits := List.mergeSort_perm ..

/-- Sorting neither adds nor loses edits. -/
@[simp] theorem mem_sort {edit : Edit} {edits : List Edit} : edit ∈ sort edits ↔ edit ∈ edits :=
  List.mem_mergeSort

/-- Sorted edits are in order, each of them with all later ones. -/
theorem sort_pairwise_le (edits : List Edit) :
    (sort edits).Pairwise fun a b => a.range.le b.range = true :=
  List.pairwise_mergeSort
    (fun (a b c : Edit) (hab : a.le b = true) (hbc : b.le c = true) => TextRange.le_trans hab hbc)
    (fun a b => TextRange.le_total a.range b.range) edits

/-- Edits that do not conflict pairwise lie one before the other once they are sorted. Conflicts go
both ways, so they can be compared in the sorted order, and there `before_of_le` applies. -/
theorem sort_pairwise_before {edits : List Edit}
    (hordered : ∀ edit ∈ edits, edit.range.start ≤ edit.range.stop)
    (hfree : edits.Pairwise fun a b => a.range.conflictsWith b.range = false) :
    (sort edits).Pairwise fun a b => a.range.Before b.range := by
  have hfree' : (sort edits).Pairwise fun a b => a.range.conflictsWith b.range = false :=
    hfree.perm (sort_perm edits).symm fun h => by rwa [conflictsWith_comm]
  have hboth := (sort_pairwise_le edits).and hfree'
  refine hboth.imp_of_mem fun _ hb h => ?_
  exact before_of_le h.1 (hordered _ (mem_sort.1 hb)) h.2

/-- The applier accepts a range behind another one if that is before it. -/
theorem follows_of_before {a b : TextRange} (h : a.Before b) : follows a b = true := by
  simp [follows, h.1, h.conflictsWith_eq_false]

/-- The applier behind a range `previous`, or at the beginning: it makes edits that come after
`previous` and one after the other, and cut the text between characters. The induction is over the
edits; each of them is the `previous` of the next. -/
theorem applyFrom_eq_ok {text : String} {edits : List Edit} (previous : Option TextRange)
    (hcuts : ∀ edit ∈ edits, edit.range.Cuts text)
    (hbefore : edits.Pairwise fun a b => a.range.Before b.range)
    (hprevious : ∀ p ∈ previous, p.Cuts text ∧ ∀ edit ∈ edits, p.Before edit.range) :
    ∃ out, applyFrom text.toList previous edits = .ok out := by
  induction edits generalizing previous with
  | nil => exact ⟨_, rfl⟩
  | cons edit edits ih =>
      obtain ⟨hfirst, hrest⟩ := List.pairwise_cons.1 hbefore
      have hcut := hcuts edit (by simp)
      -- The cursor stands between two characters, no further right than the edit.
      have hcursor : Text.isBoundary text ((previous.map (·.stop)).getD 0) = true ∧
          (previous.map (·.stop)).getD 0 ≤ edit.range.start := by
        cases previous with
        | none => exact ⟨Text.isBoundary_zero text, Nat.zero_le _⟩
        | some p =>
            obtain ⟨hp, hpb⟩ := hprevious p rfl
            exact ⟨hp.stop, (hpb edit (by simp)).1⟩
      have hfollows : previous.filter (fun p => !follows p edit.range) = none := by
        cases previous with
        | none => rfl
        | some p =>
            have hp := follows_of_before ((hprevious p rfl).2 edit (by simp))
            simp [Option.filter, hp]
      obtain ⟨kept, hkept⟩ := Text.exists_sliceChars hcursor.2 hcursor.1 hcut.start
      obtain ⟨cut, hcutChars⟩ := Text.exists_sliceChars hcut.ordered hcut.start hcut.stop
      obtain ⟨out, hout⟩ := ih (some edit.range)
        (fun e he => hcuts e (by simp [he])) hrest
        (fun p hp => by cases hp; exact ⟨hcut, hfirst⟩)
      refine ⟨kept ++ edit.replacement.toList ++ out, ?_⟩
      simp only [applyFrom, hfollows, hkept, hcutChars, hout]
      rfl

end Edit

/-- A script is applied if its edits cut the text between characters and lie one before the other.
The converse, with neighbours only, is in `Arborist.Proofs.Fix.Script`. -/
theorem applyEdits_eq_ok {text : String} {edits : List Edit}
    (hcuts : ∀ edit ∈ edits, edit.range.Cuts text)
    (hbefore : edits.Pairwise fun a b => a.range.Before b.range) :
    ∃ out, applyEdits text edits = .ok out := by
  obtain ⟨out, hout⟩ := Edit.applyFrom_eq_ok none hcuts hbefore (by simp)
  exact ⟨String.ofList out, by rw [applyEdits, hout]; rfl⟩

end Arborist
