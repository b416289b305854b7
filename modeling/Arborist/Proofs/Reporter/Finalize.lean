import Arborist.Proofs.Reporter
import Mathlib.Data.Finset.Card
import Mathlib.Data.List.Induction
import Mathlib.Data.List.Sort
import Mathlib.Data.Prod.Lex
import Mathlib.Data.String.Basic

/-!
# `Arborist.Proofs.Reporter.Finalize`: the final report of a sequence of calls

Two reports are the same if they have the same `Diagnostic.key`: kind, code and range. A final
report is in the order of `Diagnostic.rank`: start, code, kind and end. Both are made of the same
four parts, so diagnostics of equal rank have equal keys (`Diagnostic.rank_eq_iff`), and a reporter
that holds each key once has a final report without ties
(`Reporter.Deduplicated.finalize_pairwise`). Such a list is known by its members alone.

`Reporter.ofCalls` is a new reporter after a sequence of calls. It holds the first call with each
key (`mem_ofCalls`), and so the final report is described by the calls, without a reference to the
reporter: `finalize_ofCalls`.
-/

set_option autoImplicit false

namespace Arborist

namespace Diagnostic

/-- What makes two reports the same. -/
def key (d : Diagnostic) : DiagnosticKind × String × TextRange := (d.kind, d.code, d.range)

/-- The place in a final report: start, code, kind and end, each deciding only where all before it
are equal. -/
def rank (d : Diagnostic) : Nat ×ₗ String ×ₗ Nat ×ₗ Nat :=
  toLex (d.range.start, toLex (d.code, toLex (d.kind.rank, d.range.stop)))

/-- The diagnostic with the lines and columns of its range. -/
def located (file : SourceFile) (d : Diagnostic) : Diagnostic :=
  { d with location := file.location d.range }

/-- Lines and columns are not part of the key. -/
@[simp] theorem key_located (file : SourceFile) (d : Diagnostic) : (d.located file).key = d.key :=
  rfl

/-- Nor of the rank. -/
@[simp] theorem rank_located (file : SourceFile) (d : Diagnostic) :
    (d.located file).rank = d.rank := rfl

/-- The rank is the key in another arrangement, so diagnostics that could change places are the same
report. -/
theorem rank_eq_iff {a b : Diagnostic} : a.rank = b.rank ↔ a.key = b.key := by
  have hkind : a.kind.rank = b.kind.rank ↔ a.kind = b.kind := by
    cases a.kind <;> cases b.kind <;> decide
  have hrange :
      a.range = b.range ↔ a.range.start = b.range.start ∧ a.range.stop = b.range.stop := by
    cases a.range
    cases b.range
    simp
  simp only [rank, key, toLex_inj, Prod.mk.injEq, hkind, hrange]
  tauto

/-- The comparison of diagnostics is the dictionary order of the rank. -/
theorem le_iff_rank_le {a b : Diagnostic} : a.le b = true ↔ a.rank ≤ b.rank := by
  rw [le_iff, compare]
  simp only [rank, Prod.Lex.toLex_le_toLex, Ordering.isLE_then_iff_or, compare_lt_iff_lt,
    compare_eq_iff_eq, Std.isLE_compare]

end Diagnostic

namespace Reporter

/-! ### Calls -/

/-- Two reports are the same if their keys are. -/
theorem sameReport_iff {a b : Diagnostic} : sameReport a b = true ↔ a.key = b.key := by
  simp [sameReport, Diagnostic.key]

/-- A report is new if nothing with its key was reported. Its message and its fix play no part in
this. -/
theorem report_isNew_iff {r : Reporter} {d : Diagnostic} :
    (r.report d).1 = true ↔ ∀ c ∈ r.diagnostics, c.key ≠ d.key := by
  have hany : r.diagnostics.any (sameReport d) = true ↔ ∃ c ∈ r.diagnostics, c.key = d.key := by
    simp only [List.any_eq_true, sameReport_iff, @eq_comm _ d.key]
  rw [report]
  split
  · rename_i hknown
    obtain ⟨c, hc, hkey⟩ := hany.1 hknown
    simp only [Bool.false_eq_true, false_iff, not_forall]
    exact ⟨c, hc, not_not.2 hkey⟩
  · rename_i hnew
    rw [hany] at hnew
    simpa using hnew

/-- A new report is added behind the others; nothing else changes. -/
theorem diagnostics_report (r : Reporter) (d : Diagnostic) :
    (r.report d).2.diagnostics = r.diagnostics ++ if (r.report d).1 then [d] else [] := by
  rw [report]
  split <;> simp

/-- No two diagnostics have the same key. -/
def Deduplicated (r : Reporter) : Prop := (r.diagnostics.map Diagnostic.key).Nodup

/-- One more report keeps the keys apart: a report whose key is there is dropped, and one whose key
is not there adds it. -/
theorem Deduplicated.report {r : Reporter} (h : r.Deduplicated) (d : Diagnostic) :
    (r.report d).2.Deduplicated := by
  rw [Deduplicated, diagnostics_report]
  split
  · rename_i hnew
    have hkeys := report_isNew_iff.1 hnew
    rw [List.map_append, List.nodup_append]
    refine ⟨h, by simp, ?_⟩
    simpa using hkeys
  · rwa [List.append_nil]

/-- A new reporter after these calls. -/
def ofCalls (calls : List Diagnostic) : Reporter :=
  calls.foldl (fun r d => (r.report d).2) {}

/-- One more call at the end is one more report. -/
theorem ofCalls_concat (calls : List Diagnostic) (d : Diagnostic) :
    ofCalls (calls ++ [d]) = ((ofCalls calls).report d).2 := by
  simp [ofCalls]

/-- After any calls each key is held once. The induction adds calls at the end, in the order in
which they are made. -/
theorem deduplicated_ofCalls (calls : List Diagnostic) : (ofCalls calls).Deduplicated := by
  induction calls using List.reverseRecOn with
  | nil => exact List.nodup_nil
  | append_singleton calls d ih =>
      rw [ofCalls_concat]
      exact ih.report d

/-- The keys that are held are the keys of the calls. The induction adds calls at the end, as they
are made. -/
theorem mem_keys_ofCalls {calls : List Diagnostic} {k : DiagnosticKind × String × TextRange} :
    k ∈ (ofCalls calls).diagnostics.map Diagnostic.key ↔ k ∈ calls.map Diagnostic.key := by
  induction calls using List.reverseRecOn with
  | nil => rfl
  | append_singleton calls e ih =>
      rw [ofCalls_concat, diagnostics_report, List.map_append, List.map_append, List.mem_append,
        List.mem_append, ih]
      refine or_congr_right' fun hk => ?_
      rw [← ih] at hk
      split
      · rfl
      · rename_i hknown
        -- A call that is not new has a key that is held, and `k` is not.
        rw [report_isNew_iff] at hknown
        push Not at hknown
        obtain ⟨c, hc, hkey⟩ := hknown
        have hne : k ≠ e.key := fun heq => hk (heq ▸ hkey ▸ List.mem_map_of_mem hc)
        simp [hne]

/-- A call is new if no call before had its key, whether that call was held or dropped. -/
theorem report_ofCalls_isNew_iff {calls : List Diagnostic} {d : Diagnostic} :
    ((ofCalls calls).report d).1 = true ↔ ∀ c ∈ calls, c.key ≠ d.key := by
  have hkeys := @mem_keys_ofCalls calls d.key
  simp only [List.mem_map] at hkeys
  rw [report_isNew_iff]
  have hnone := not_congr hkeys
  push Not at hnone
  exact hnone

/-- What is held is the first call with its key. A later call with the same key is dropped, even if
it says something else. -/
theorem mem_ofCalls {calls : List Diagnostic} {d : Diagnostic} :
    d ∈ (ofCalls calls).diagnostics ↔ calls.find? (·.key = d.key) = some d := by
  induction calls using List.reverseRecOn with
  | nil => simp [ofCalls]
  | append_singleton calls e ih =>
      rw [ofCalls_concat, diagnostics_report, List.mem_append, ih, List.find?_append]
      cases hfirst : calls.find? (·.key = d.key) with
      | some c =>
          -- The key was called with before, so that the last call is `d` only if it is not new.
          have hlast : ¬ d ∈ if ((ofCalls calls).report e).1 then [e] else [] := by
            intro hmem
            split at hmem
            · rename_i hnew
              obtain rfl := List.mem_singleton.1 hmem
              exact report_ofCalls_isNew_iff.1 hnew c (List.mem_of_find?_eq_some hfirst)
                (by simpa using List.find?_some hfirst)
            · cases hmem
          simp [hlast]
      | none =>
          have hnone : ∀ c ∈ calls, c.key ≠ d.key := by simpa using hfirst
          by_cases hkey : e.key = d.key
          · have hnew := report_ofCalls_isNew_iff.2 (hkey ▸ hnone)
            simp [hnew, hkey, eq_comm]
          · have hne : d ≠ e := fun h => hkey (h ▸ rfl)
            simp [hkey, hne]

/-! ### The final report -/

/-- The final report leaves out this diagnostic: a finding for which a directive counts where it
starts. -/
def Omits (file : SourceFile) (suppressions : Suppressions) (d : Diagnostic) : Prop :=
  d.kind = .finding ∧
    (suppressions.find? (file.location d.range).line d.code d.rule).isSome = true

section
variable {r : Reporter} {file : SourceFile} {suppressions : Suppressions}

/-- The final report holds what was reported and is not omitted, with lines and columns filled
in. -/
theorem mem_finalize_iff {d : Diagnostic} :
    d ∈ r.finalize file suppressions ↔
      ∃ c ∈ r.diagnostics, ¬ Omits file suppressions c ∧ d = c.located file := by
  -- The test that is made, in the words of `Omits`.
  have hkept : ∀ c : Diagnostic,
      (!((c.located file).isFinding && (suppressions.find? (c.located file).location.line
        (c.located file).code (c.located file).rule).isSome)) = true ↔
        ¬ Omits file suppressions c := by
    intro c
    rw [Omits, Diagnostic.isFinding, Bool.not_eq_true', ← Bool.not_eq_true, Bool.and_eq_true,
      decide_eq_true_eq]
    rfl
  rw [finalize, List.mem_mergeSort, List.mem_filter, List.mem_map]
  constructor
  · rintro ⟨⟨c, hc, rfl⟩, hd⟩
    exact ⟨c, hc, (hkept c).1 hd, rfl⟩
  · rintro ⟨c, hc, hd, rfl⟩
    exact ⟨⟨c, hc, rfl⟩, (hkept c).2 hd⟩

/-- Where each key is held once, the final report increases strictly: it is sorted by rank, and
equal ranks would be equal keys. -/
theorem Deduplicated.finalize_pairwise (h : r.Deduplicated) :
    (r.finalize file suppressions).Pairwise fun a b => a.rank < b.rank := by
  have hsorted : (r.finalize file suppressions).Pairwise fun a b => a.le b = true :=
    List.pairwise_mergeSort Diagnostic.le_trans Diagnostic.le_total _
  have hkeys : (r.finalize file suppressions).Pairwise fun a b => a.key ≠ b.key := by
    have hheld : (r.diagnostics.map (Diagnostic.located file)).Pairwise fun a b => a.key ≠ b.key :=
      List.pairwise_map.2 (List.pairwise_map.1 h)
    exact (List.mergeSort_perm _ _).symm.pairwise (hheld.filter _) fun hab => hab.symm
  refine (hsorted.and hkeys).imp fun hab => ?_
  exact lt_of_le_of_ne (Diagnostic.le_iff_rank_le.1 hab.1) fun heq =>
    hab.2 (Diagnostic.rank_eq_iff.1 heq)

/-- A list in strict order is known by its members, so two descriptions of a final report need only
agree on these. -/
theorem eq_of_rank_pairwise {out out' : List Diagnostic}
    (h : out.Pairwise fun a b => a.rank < b.rank) (h' : out'.Pairwise fun a b => a.rank < b.rank)
    (hmem : ∀ d, d ∈ out ↔ d ∈ out') : out = out' := by
  have : Std.Irrefl fun a b : Diagnostic => a.rank < b.rank := ⟨fun _ => lt_irrefl _⟩
  have : Std.Antisymm fun a b : Diagnostic => a.rank < b.rank :=
    ⟨fun _ _ hab hba => absurd hba hab.not_gt⟩
  exact h.eq_of_mem_iff h' hmem

/-- A final report depends on the reports under each code, and not on how those under different
codes come in turn. -/
theorem finalize_congr_only {r' : Reporter} (h : r.Deduplicated) (h' : r'.Deduplicated)
    (honly : ∀ code, r.only code = r'.only code) :
    r.finalize file suppressions = r'.finalize file suppressions := by
  have hmem : ∀ {r : Reporter} {d : Diagnostic},
      d ∈ r.diagnostics ↔ d ∈ (r.only d.code).diagnostics := by
    intro r d
    simp [only]
  refine eq_of_rank_pairwise h.finalize_pairwise h'.finalize_pairwise fun d => ?_
  rw [mem_finalize_iff, mem_finalize_iff]
  refine exists_congr fun c => and_congr_left' ?_
  rw [hmem, honly, ← hmem]

end

/-- What a sequence of calls comes to. The final report is the one list that increases strictly in
start, code, kind and end and holds, with its place filled in, the first call with each key, unless
this is a finding that a directive allows; failures of rules are no findings and always stay. A call
is new exactly if no call before had its key, and as many diagnostics are held as there were keys.
-/
theorem finalize_ofCalls (calls : List Diagnostic) (file : SourceFile)
    (suppressions : Suppressions) :
    (∀ out : List Diagnostic, out = (ofCalls calls).finalize file suppressions ↔
      (out.Pairwise fun a b => a.rank < b.rank) ∧
      ∀ d, d ∈ out ↔ ∃ c, calls.find? (·.key = c.key) = some c ∧
        ¬ Omits file suppressions c ∧ d = c.located file) ∧
    (∀ d, ((ofCalls calls).report d).1 = true ↔ ∀ c ∈ calls, c.key ≠ d.key) ∧
    (ofCalls calls).diagnostics.length = (calls.map Diagnostic.key).toFinset.card := by
  have hmem : ∀ d, d ∈ (ofCalls calls).finalize file suppressions ↔
      ∃ c, calls.find? (·.key = c.key) = some c ∧ ¬ Omits file suppressions c ∧
        d = c.located file := by
    intro d
    simp only [mem_finalize_iff, mem_ofCalls]
  have hdedup := deduplicated_ofCalls calls
  refine ⟨fun out => ⟨?_, ?_⟩, fun d => report_ofCalls_isNew_iff, ?_⟩
  · rintro rfl
    exact ⟨hdedup.finalize_pairwise, hmem⟩
  · -- A list with this order is determined by its elements.
    rintro ⟨hout, houtMem⟩
    exact eq_of_rank_pairwise hout hdedup.finalize_pairwise fun d =>
      (houtMem d).trans (hmem d).symm
  · -- No key is held twice, so counting diagnostics is counting keys.
    have hkeys : ((ofCalls calls).diagnostics.map Diagnostic.key).toFinset =
        (calls.map Diagnostic.key).toFinset := by
      ext k
      rw [List.mem_toFinset, List.mem_toFinset, mem_keys_ofCalls]
    rw [← hkeys, List.toFinset_card_of_nodup hdedup, List.length_map]

end Reporter

end Arborist
