import Arborist.Proofs.Fix.Script
import Arborist.Proofs.Fix.Selection

/-!
# `Arborist.Proofs.Fix.Validity`: which proposals pass their check

`Proposal.Valid` says what a proposal has to be like, of its edits as they were proposed: each of
them replaces whole characters inside the window of the diagnostic, and no two of them conflict,
wherever they stand in the list. The check sorts the edits first and then compares neighbours only.
That comes to the same, because sorted edits that do not conflict with their neighbours lie one
before the other. Equal starts are what makes this work: an empty range shares no byte with
anything, so two insertions at one place would pass as disjoint, but they start at the same offset.

`validate_accepts_valid` also says what the check leaves behind. Only a proposal without a fault in
a single edit has its edits reordered.
-/

set_option autoImplicit false

namespace Arborist

open Text

namespace Proposal

/-- What is asked of a proposal for the diagnostic `d`. -/
structure Valid (slack : Nat) (source : String) (d : Diagnostic) (p : Proposal) : Prop where
  nonempty : p.edits ≠ []
  ordered : ∀ edit ∈ p.edits, edit.range.start ≤ edit.range.stop
  bounded : ∀ edit ∈ p.edits, edit.range.stop ≤ source.utf8ByteSize
  /-- No edit splits a character. -/
  whole : ∀ edit ∈ p.edits, String.Pos.Raw.IsValid source ⟨edit.range.start⟩ ∧
    String.Pos.Raw.IsValid source ⟨edit.range.stop⟩
  /-- Edits stay in the range of the diagnostic, widened by the slack. -/
  inside : ∀ edit ∈ p.edits, (d.window slack source).start ≤ edit.range.start ∧
    edit.range.stop ≤ (d.window slack source).stop
  /-- Two edits at different places of the list do not conflict. -/
  free : ∀ (i j : Nat) (hi : i < p.edits.length) (hj : j < p.edits.length), i ≠ j →
    p.edits[i].range.conflictsWith p.edits[j].range = false

/-- Conflicts go both ways, so every two edits can be compared in the order of the list. A condition
on earlier and later edits is then one on any two of them. -/
theorem pairwise_free_iff {edits : List Edit} :
    (edits.Pairwise fun a b => a.range.conflictsWith b.range = false) ↔
      ∀ (i j : Nat) (hi : i < edits.length) (hj : j < edits.length), i ≠ j →
        edits[i].range.conflictsWith edits[j].range = false := by
  rw [List.pairwise_iff_getElem]
  constructor
  · intro h i j hi hj hne
    rcases Nat.lt_or_gt_of_ne hne with hlt | hgt
    · exact h i j hi hj hlt
    · rw [TextRange.conflictsWith_comm]
      exact h j i hj hi hgt
  · intro h i j hi hj hlt
    exact h i j hi hj (Nat.ne_of_lt hlt)

/-- No fault is found among edits that do not conflict. Only neighbours are compared, and they need
not be sorted for this. -/
theorem neighbourFault?_eq_none {edits : List Edit}
    (h : edits.Pairwise fun a b => a.range.conflictsWith b.range = false) :
    neighbourFault? edits = none := by
  fun_induction neighbourFault? edits with
  | case1 a b edits hconflict =>
      have hab := (List.pairwise_cons.1 h).1 b (by simp)
      rw [hconflict] at hab
      cases hab
  | case2 a b edits hconflict ih => exact ih (List.pairwise_cons.1 h).2
  | case3 edits hshort => rfl

/-- Sorted edits that are not inverted conflict with a neighbour if any two of them conflict.
Inverted ranges would break this: an edit could reach over its neighbour to a later one. -/
theorem neighbourFault?_sort_eq_none_iff {edits : List Edit}
    (hordered : ∀ edit ∈ edits, edit.range.start ≤ edit.range.stop) :
    neighbourFault? (Edit.sort edits) = none ↔
      edits.Pairwise fun a b => a.range.conflictsWith b.range = false := by
  constructor
  · intro h
    have hbefore := pairwise_before_of_neighbourFault (Edit.sort_pairwise_le edits)
      (fun edit hedit => hordered edit (Edit.mem_sort.1 hedit)) h
    -- Edits that lie one before the other do not conflict, and then in no other order either.
    refine (hbefore.imp fun hab => hab.conflictsWith_eq_false).perm (Edit.sort_perm edits) ?_
    intro a b hab
    rwa [TextRange.conflictsWith_comm]
  · intro h
    refine neighbourFault?_eq_none ((Edit.sort_pairwise_before hordered h).imp ?_)
    intro a b hab
    exact hab.conflictsWith_eq_false

/-- An edit has no fault of its own if it replaces whole characters inside the window. What the
check allows is the window, by `Diagnostic.expand_eq_window`. -/
theorem editFault?_eq_none_iff {slack : Nat} {source : String} {d : Diagnostic} {edit : Edit} :
    editFault? source (d.range.expand slack (byteLength source.toList)) edit = none ↔
      edit.range.Cuts source ∧ (d.window slack source).start ≤ edit.range.start ∧
        edit.range.stop ≤ (d.window slack source).stop := by
  rw [Diagnostic.expand_eq_window, ← TextRange.contains_iff]
  constructor
  · exact cuts_of_editFault
  · intro h
    exact editFault?_eq_none h.1 h.2

/-- A proposal passes its check exactly if it is valid. The check works on the sorted edits and on
neighbours, and `Valid` on the edits as they were proposed and on any two of them. -/
theorem validate_eq_none_iff_valid {slack : Nat} {source : String} {d : Diagnostic}
    {p : Proposal} : (p.validate slack d.range source).2 = none ↔ p.Valid slack source d := by
  rw [validate_eq_none_iff]
  simp only [editFault?_eq_none_iff]
  constructor
  · -- What the check finds out about each edit, field by field, and last about any two of them.
    rintro ⟨hnonempty, hedits, hneighbours⟩
    have hordered : ∀ edit ∈ p.edits, edit.range.start ≤ edit.range.stop :=
      fun edit hedit => (hedits edit hedit).1.ordered
    exact {
      nonempty := hnonempty
      ordered := hordered
      bounded := fun edit hedit => le_of_isBoundary (hedits edit hedit).1.stop
      whole := fun edit hedit => ⟨isBoundary_iff_isValid.1 (hedits edit hedit).1.start,
        isBoundary_iff_isValid.1 (hedits edit hedit).1.stop⟩
      inside := fun edit hedit => (hedits edit hedit).2
      free := pairwise_free_iff.1 ((neighbourFault?_sort_eq_none_iff hordered).1 hneighbours) }
  · intro h
    refine ⟨h.nonempty, fun edit hedit => ⟨⟨h.ordered edit hedit, ?_, ?_⟩, h.inside edit hedit⟩, ?_⟩
    · exact isBoundary_iff_isValid.2 (h.whole edit hedit).1
    · exact isBoundary_iff_isValid.2 (h.whole edit hedit).2
    · exact (neighbourFault?_sort_eq_none_iff h.ordered).2 (pairwise_free_iff.2 h.free)

/-- A proposal with another fault than an overlap is left as it is: such a fault is found before the
edits are sorted. -/
theorem validate_fst_eq_self {slack : Nat} {source : String} {range : TextRange} {p : Proposal}
    {error : FixError} (h : (p.validate slack range source).2 = some error)
    (hother : ∀ first second, error ≠ .overlapping first second) :
    (p.validate slack range source).1 = p := by
  rcases p.validate_cases slack range source with ⟨-, heq⟩ | ⟨_, -, _, -, heq⟩ | ⟨-, -, heq⟩
  · rw [heq]
  · rw [heq]
  · rw [heq] at h
    obtain ⟨first, second, hoverlap⟩ := fault_of_neighbourFault h
    exact absurd hoverlap (hother first second)

/-- For every proposal, diagnostic, text and slack, the check finds no fault exactly if the proposal
is valid, where every two edits are compared and not neighbours only. A proposal that passes keeps
everything but the order of its edits, and these now lie one before the other: each ends no later
than the later ones start, and starts further left. A proposal with overlapping edits keeps
everything but their order, and one with any other fault is left as it is. -/
theorem validate_accepts_valid (p : Proposal) (slack : Nat) (d : Diagnostic) (source : String) :
    ((p.validate slack d.range source).2 = none ↔ p.Valid slack source d) ∧
    ((p.validate slack d.range source).2 = none →
      (p.validate slack d.range source).1.Reordered p ∧
      (p.validate slack d.range source).1.edits.Pairwise fun a b =>
        a.range.stop ≤ b.range.start ∧ a.range.start < b.range.start) ∧
    (∀ error, (p.validate slack d.range source).2 = some error →
      (∀ first second, error ≠ .overlapping first second) →
      (p.validate slack d.range source).1 = p) ∧
    ∀ first second, (p.validate slack d.range source).2 = some (.overlapping first second) →
      (p.validate slack d.range source).1.Reordered p := by
  have hreordered := Resolver.reordered_validate p slack d.range source
  refine ⟨validate_eq_none_iff_valid, ?_, ?_, ?_⟩
  · intro h
    exact ⟨hreordered, (clean_of_validate h).before⟩
  · intro error h hother
    exact validate_fst_eq_self h hother
  · intro first second _
    exact hreordered

end Proposal

end Arborist
