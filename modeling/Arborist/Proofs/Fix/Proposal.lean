import Arborist.Fix.Proposal
import Arborist.Proofs.Fix.Edit

/-!
# `Arborist.Proofs.Fix.Proposal`: proposals that pass their check

`Proposal.validate` looks at the edits one by one and then, once they are sorted, at neighbours
only. `Clean` says what a proposal that passes looks like: every edit cuts the text between
characters, and every edit lies before all later ones, not only before the next
(`clean_of_validate`).
-/

set_option autoImplicit false

namespace Arborist

/-- A range that cuts a text between characters ends no later than the text. -/
theorem TextRange.Cuts.bounded {text : String} {r : TextRange} (h : r.Cuts text) :
    r.stop ≤ Text.byteLength text.toList := by
  obtain ⟨front, rest, hsplit, hstop⟩ := Text.isBoundary_iff.1 h.stop
  rw [hsplit, Text.byteLength_append]
  omega

namespace Proposal

/-- The edits cut the text between characters and lie one before the other. -/
structure Clean (source : String) (p : Proposal) : Prop where
  cuts : ∀ edit ∈ p.edits, edit.range.Cuts source
  before : p.edits.Pairwise fun a b => a.range.Before b.range

/-- An edit without a fault of its own cuts the text between characters inside the allowed range.
The faults are looked for in the order inverted, out of bounds, outside of the diagnostic. -/
theorem cuts_of_editFault {source : String} {allowed : TextRange} {edit : Edit}
    (h : editFault? source allowed edit = none) :
    edit.range.Cuts source ∧ allowed.contains edit.range = true := by
  simp only [editFault?] at h
  split at h
  · cases h
  · rename_i hordered
    split at h
    · cases h
    · rename_i hbounds
      split at h
      · cases h
      · rename_i hinside
        simp only [Bool.or_eq_true, decide_eq_true_eq, Bool.not_eq_true', not_or,
          Bool.not_eq_false] at hbounds hinside
        exact ⟨⟨by omega, hbounds.1.2, hbounds.2⟩, hinside⟩

/-- Conversely, an edit that cuts the text between characters inside the allowed range has no fault
of its own. -/
theorem editFault?_eq_none {source : String} {allowed : TextRange} {edit : Edit}
    (hcuts : edit.range.Cuts source) (hinside : allowed.contains edit.range = true) :
    editFault? source allowed edit = none := by
  have hbounded := hcuts.bounded
  have hordered := hcuts.ordered
  simp only [editFault?]
  rw [if_neg (by omega), if_neg, if_neg (by simp [hinside])]
  simp [hcuts.start, hcuts.stop, hbounded]

/-- The fault of an edit on its own names its range, and what the range was compared with: the
length of the source, or the range that is allowed. -/
theorem fault_of_editFault {source : String} {allowed : TextRange} {edit : Edit} {fault : FixError}
    (h : editFault? source allowed edit = some fault) :
    fault = .inverted edit.range ∨
      fault = .outOfBounds edit.range (Text.byteLength source.toList) ∨
      fault = .outsideDiagnostic edit.range allowed := by
  simp only [editFault?] at h
  split at h
  · exact .inl (Option.some.inj h).symm
  · split at h
    · exact .inr (.inl (Option.some.inj h).symm)
    · split at h
      · exact .inr (.inr (Option.some.inj h).symm)
      · cases h

/-- The fault of neighbours is that they overlap, and it names both ranges. -/
theorem fault_of_neighbourFault {edits : List Edit} {fault : FixError}
    (h : neighbourFault? edits = some fault) :
    ∃ first second, fault = .overlapping first second := by
  fun_induction neighbourFault? edits with
  | case1 a b edits hconflict => exact ⟨a.range, b.range, (Option.some.inj h).symm⟩
  | case2 a b edits hconflict ih => exact ih h
  | case3 edits hshort => cases h

/-- What checking can come to. The edits are put in order only if there are some and none of them is
at fault on its own. -/
theorem validate_cases (p : Proposal) (slack : Nat) (range : TextRange) (source : String) :
    (p.edits = [] ∧ p.validate slack range source = (p, some .empty)) ∨
    (∃ edit ∈ p.edits, ∃ fault,
      editFault? source (range.expand slack (Text.byteLength source.toList)) edit = some fault ∧
      p.validate slack range source = (p, some fault)) ∨
    (p.edits ≠ [] ∧
      (∀ edit ∈ p.edits,
        editFault? source (range.expand slack (Text.byteLength source.toList)) edit = none) ∧
      p.validate slack range source = (p.sorted, neighbourFault? p.sorted.edits)) := by
  simp only [validate]
  split
  · rename_i hempty
    exact .inl ⟨List.isEmpty_iff.1 hempty, rfl⟩
  · rename_i hsome
    split
    · -- The fault is that of the first edit that has one.
      rename_i fault hfault
      obtain ⟨edit, hedit, hown⟩ := List.exists_of_findSome?_eq_some hfault
      exact .inr (.inl ⟨edit, hedit, fault, hown, rfl⟩)
    · rename_i hfaults
      refine .inr (.inr ⟨fun hnil => hsome ?_, List.findSome?_eq_none_iff.1 hfaults, rfl⟩)
      rw [hnil]
      rfl

/-- For edits in order, neighbours that do not conflict are enough: the next edit lies before all
later ones and passes that on. The induction follows the check of neighbours. -/
theorem pairwise_before_of_neighbourFault {edits : List Edit}
    (hle : edits.Pairwise fun a b => a.range.le b.range = true)
    (hordered : ∀ edit ∈ edits, edit.range.start ≤ edit.range.stop)
    (h : neighbourFault? edits = none) :
    edits.Pairwise fun a b => a.range.Before b.range := by
  fun_induction neighbourFault? edits with
  | case1 a b edits hconflict => cases h
  | case2 a b edits hconflict ih =>
      obtain ⟨ha, hrest⟩ := List.pairwise_cons.1 hle
      have htail := ih hrest (fun edit hedit => hordered edit (by simp [hedit])) h
      have hab : a.range.Before b.range :=
        TextRange.before_of_le (ha b (by simp)) (hordered b (by simp)) (by simpa using hconflict)
      refine List.pairwise_cons.2 ⟨fun c hc => ?_, htail⟩
      rcases List.mem_cons.1 hc with rfl | hc
      · exact hab
      · exact hab.trans ((List.pairwise_cons.1 htail).1 c hc)
  | case3 edits hshort =>
      -- Fewer than two edits have no neighbours.
      match edits, hshort with
      | [], _ => exact List.Pairwise.nil
      | [a], _ => exact List.pairwise_singleton _ a
      | a :: b :: edits, hshort => exact absurd rfl (hshort a b edits)

/-- A proposal passes if it has edits, none of them is at fault on its own, and no two neighbours
conflict once they are sorted. -/
theorem validate_eq_none_iff {p : Proposal} {slack : Nat} {range : TextRange} {source : String} :
    (p.validate slack range source).2 = none ↔ p.edits ≠ [] ∧
      (∀ edit ∈ p.edits,
        editFault? source (range.expand slack (Text.byteLength source.toList)) edit = none) ∧
      neighbourFault? p.sorted.edits = none := by
  rcases p.validate_cases slack range source with
    ⟨hnil, heq⟩ | ⟨edit, hedit, fault, hfault, heq⟩ | ⟨hsome, hfaults, heq⟩
  · simp [heq, hnil]
  · simp only [heq, reduceCtorEq, false_iff]
    rintro ⟨-, hfaults, -⟩
    simp [hfaults edit hedit] at hfault
  · simp only [heq, hsome, ne_eq, not_false_eq_true, true_and]
    exact ⟨fun h => ⟨hfaults, h⟩, fun h => h.2⟩

/-- A proposal that passes is left with its edits in order, and otherwise as it was. Faults of
single edits are looked for before sorting, and those of neighbours after it. -/
theorem validate_eq_sorted {p : Proposal} {slack : Nat} {range : TextRange} {source : String}
    (h : (p.validate slack range source).2 = none) :
    p.validate slack range source = (p.sorted, none) := by
  rcases p.validate_cases slack range source with ⟨-, heq⟩ | ⟨_, -, _, -, heq⟩ | ⟨-, -, heq⟩
  · simp [heq] at h
  · simp [heq] at h
  · rw [heq] at h ⊢
    exact Prod.ext rfl h

/-- A proposal that passes is clean: its edits cut the text between characters and lie one before
the other. -/
theorem clean_of_validate {p : Proposal} {slack : Nat} {range : TextRange} {source : String}
    (h : (p.validate slack range source).2 = none) :
    (p.validate slack range source).1.Clean source := by
  obtain ⟨-, hfaults, hneighbours⟩ := validate_eq_none_iff.1 h
  rw [validate_eq_sorted h]
  have hcuts : ∀ edit ∈ p.sorted.edits, edit.range.Cuts source := fun edit hedit =>
    (cuts_of_editFault (hfaults edit (Edit.mem_sort.1 hedit))).1
  exact ⟨hcuts, pairwise_before_of_neighbourFault (Edit.sort_pairwise_le p.edits)
    (fun edit hedit => (hcuts edit hedit).ordered) hneighbours⟩

end Proposal

end Arborist
