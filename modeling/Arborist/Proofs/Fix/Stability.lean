import Arborist.Proofs.Fix.Selection
import Mathlib.Data.List.Sort

/-!
# `Arborist.Proofs.Fix.Stability`: rejected proposals have no influence

A proposal that is not accepted could still matter: it could keep another one out, or change the
order in which the others are considered. It does neither. `resolve_ignores_rejected` says so for
two runs of the resolver, one on a list of proposals and one on what is left when some of the
rejected ones are taken away.

The two runs are compared candidate by candidate. A candidate that loses leaves the accepted ones as
they are, so leaving it out makes no difference to those behind it (`Tally.accepted_foldl_filter`).
Leaving proposals out before the sort is the same as leaving them out behind it, because the sort is
stable: ties go by the order of the proposals and not by their places (`map_fst_considered_kept`).

Resolving what was accepted once more is the other extreme. Accepted proposals pass their check
unchanged, are in order already and do not conflict, so all of them are accepted again.
-/

set_option autoImplicit false

namespace Arborist

/-! ### Sublists by place -/

/-- What is left of a list at the places that `keep` allows. -/
def keptAt {α : Type} (keep : Nat → Bool) (l : List α) : List α :=
  (l.zipIdx.filter fun a => keep a.2).map (·.1)

/-- A sublist of a list with places is what is left at its places. Places are what tells equal
elements apart, so this would not do for a sublist without them. -/
theorem map_fst_eq_keptAt {α : Type} {l : List α} {kept : List (α × Nat)}
    (h : kept.Sublist l.zipIdx) :
    kept.map (·.1) = keptAt (fun i => decide (i ∈ kept.map (·.2))) l := by
  have hplaces := pairwise_zipIdx l
  have hirrefl : Std.Irrefl fun a b : α × Nat => a.2 < b.2 := ⟨fun a => Nat.lt_irrefl a.2⟩
  have hantisymm : Std.Antisymm fun a b : α × Nat => a.2 < b.2 :=
    ⟨fun a b hab hba => absurd hab (Nat.lt_asymm hba)⟩
  -- Both lists go by rising places, so it is enough that they have the same elements.
  have hkept : kept = l.zipIdx.filter fun a => decide (a.2 ∈ kept.map (·.2)) := by
    refine (hplaces.sublist h).eq_of_mem_iff (hplaces.sublist List.filter_sublist) fun a => ?_
    rw [List.mem_filter, decide_eq_true_eq]
    constructor
    · intro ha
      exact ⟨h.subset ha, List.mem_map.2 ⟨a, ha, rfl⟩⟩
    · rintro ⟨ha, hplace⟩
      obtain ⟨b, hb, hsame⟩ := List.mem_map.1 hplace
      have hla := List.mem_zipIdx_iff_getElem?.1 ha
      have hlb := List.mem_zipIdx_iff_getElem?.1 (h.subset hb)
      rw [hsame, hla, Option.some.injEq] at hlb
      rwa [show a = b from Prod.ext hlb hsame.symm]
  rw [keptAt, ← hkept]

/-- To leave places out before or after a function is applied is the same, because elements keep the
places they had in the whole list. -/
theorem filterMap_keptAt {α β : Type} (f : α → Option β) (keep : Nat → Bool) (l : List α) :
    (keptAt keep l).filterMap f = ((placed f l).filter fun a => keep a.2).map (·.1) := by
  rw [keptAt, placed]
  induction l.zipIdx with
  | nil => rfl
  | cons a z ih =>
      obtain ⟨a, i⟩ := a
      cases hf : f a <;> cases hkeep : keep i <;> simp [hf, hkeep, ih]

/-! ### The run without a loser -/

namespace Tally

variable {t t' : Tally} {c : Proposal × Nat}

/-- Who is accepted next depends on who was accepted before, not on who was rejected. -/
theorem accepted_accept_congr (h : t'.accepted = t.accepted) :
    (t'.accept c).accepted = (t.accept c).accepted := by
  unfold accept
  rw [h]
  split
  · rfl
  · rfl

/-- Who was accepted stays accepted. -/
theorem mem_accepted_accept_of_mem {a : Proposal × Nat} (h : a ∈ t.accepted) :
    a ∈ (t.accept c).accepted := by
  unfold accept
  split
  · exact h
  · exact List.mem_append_left _ h

/-- A candidate that is not accepted leaves the accepted ones as they are. -/
theorem accepted_accept_of_not_mem (h : c ∉ (t.accept c).accepted) :
    (t.accept c).accepted = t.accepted := by
  unfold accept at h ⊢
  split
  · rfl
  · rename_i hnone
    simp [hnone] at h

/-- A run accepts the same if it leaves out candidates that it does not accept. The induction is on
the candidates from the back: whoever is left out last finds the accepted ones of both runs
equal. -/
theorem accepted_foldl_filter (hstart : t'.accepted = t.accepted) {keep : Proposal × Nat → Bool}
    {candidates : List (Proposal × Nat)}
    (hkeep : ∀ a ∈ (candidates.foldl accept t).accepted, keep a = true) :
    ((candidates.filter keep).foldl accept t').accepted =
      (candidates.foldl accept t).accepted := by
  induction candidates using List.reverseRecOn with
  | nil => exact hstart
  | append_singleton candidates c ih =>
      rw [List.foldl_append, List.foldl_cons, List.foldl_nil] at hkeep ⊢
      have hsame := ih fun a ha => hkeep a (mem_accepted_accept_of_mem ha)
      rw [List.filter_append, List.foldl_append]
      by_cases hc : keep c = true
      · rw [List.filter_cons_of_pos hc, List.filter_nil, List.foldl_cons, List.foldl_nil]
        exact accepted_accept_congr hsame
      · rw [List.filter_cons_of_neg hc, List.filter_nil, List.foldl_nil, hsame]
        -- The last candidate was left out, so the long run did not accept it.
        exact (accepted_accept_of_not_mem fun hmem => hc (hkeep c hmem)).symm

end Tally

/-- Candidates that do not conflict, with each other or with those before them, are all accepted, in
their order. -/
theorem Resolution.foldl_accept_of_free {resolution : Resolution} {candidates : List Proposal}
    (h : (resolution.accepted ++ candidates).Pairwise fun p q => p.conflictsWith q = false) :
    candidates.foldl accept resolution =
      { resolution with accepted := resolution.accepted ++ candidates } := by
  induction candidates generalizing resolution with
  | nil => simp
  | cons c candidates ih =>
      have hnone : resolution.accepted.find? (·.conflictsWith c) = none := by
        refine List.find?_eq_none.2 fun p hp => ?_
        simp [(List.pairwise_append.1 h).2.2 p hp c (by simp)]
      have haccept : resolution.accept c =
          { resolution with accepted := resolution.accepted ++ [c] } := by
        rw [accept, hnone]
      rw [List.foldl_cons, haccept, ih]
      · simp
      · simpa using h

/-! ### A check passed twice -/

/-- Sorting again changes nothing. -/
theorem Edit.sort_sort (edits : List Edit) : sort (sort edits) = sort edits :=
  List.mergeSort_of_pairwise (sort_pairwise_le edits)

/-- A proposal that passed its check passes it again and is left as it is. Its edits are the same
and in order already. -/
theorem Proposal.validate_sorted {p : Proposal} {slack : Nat} {range : TextRange} {source : String}
    (h : (p.validate slack range source).2 = none) :
    p.sorted.validate slack range source = (p.sorted, none) := by
  have hsorted : p.sorted.sorted = p.sorted := by
    unfold sorted
    rw [Edit.sort_sort]
  obtain ⟨hsome, hfaults, hneighbours⟩ := validate_eq_none_iff.1 h
  have hagain : (p.sorted.validate slack range source).2 = none := by
    refine validate_eq_none_iff.2 ⟨fun hnil => hsome ?_, fun edit hedit => ?_, ?_⟩
    · have hperm := Edit.sort_perm p.edits
      rw [show Edit.sort p.edits = [] from hnil] at hperm
      exact hperm.nil_eq.symm
    · exact hfaults edit (Edit.mem_sort.1 hedit)
    · -- Sorting what is sorted changes nothing.
      rwa [hsorted]
  rw [validate_eq_sorted hagain, hsorted]

namespace Resolver

variable {r : Resolver} {diagnostics : List Diagnostic} {source : String}
  {proposals : List Proposal}

open Proposal (Earlier Reordered)

/-- What judging lets through, it lets through again and leaves it as it is. The second time it is
about the sorted proposal, which has the same diagnostic and the same safety. -/
theorem judge_of_judge {p q : Proposal} (h : r.judge diagnostics source p = (q, none)) :
    r.judge diagnostics source q = (q, none) := by
  cases hd : diagnostics[p.diagnostic]? with
  | none => simp [judge_of_unknown hd] at h
  | some d =>
      by_cases hforbids : r.Forbids p
      · simp [judge_of_forbids hd hforbids] at h
      · rw [judge_of_allowed hd hforbids, Prod.mk.injEq, Option.map_eq_none_iff] at h
        obtain ⟨hq, hvalid⟩ := h
        rw [Proposal.validate_eq_sorted hvalid] at hq
        subst hq
        -- Diagnostic and safety are those of `p`.
        have hd' : diagnostics[p.sorted.diagnostic]? = some d := hd
        have hforbids' : ¬ r.Forbids p.sorted := hforbids
        rw [judge_of_allowed hd' hforbids', Proposal.validate_sorted hvalid]
        rfl

/-! ### Two runs -/

/-- The resolver in terms of candidates and of proposals that are out on their own. The first are
sorted by precedence, and the others keep their order. -/
theorem resolve_eq (r : Resolver) (proposals : List Proposal) (diagnostics : List Diagnostic)
    (source : String) :
    r.resolve proposals diagnostics source =
      ((proposals.filterMap (r.candidate? diagnostics source)).mergeSort precedes).foldl
        Resolution.accept
        { rejected := proposals.filterMap (r.dismissed? diagnostics source) } := by
  simp only [resolve, List.filterMap_map]
  rfl

/-- The candidates of a sublist are considered in the order in which they are considered among all
others. The sort is stable, so a tie is decided in the same way in both lists although the places
differ. -/
theorem map_fst_considered_kept (keep : Nat → Bool) :
    ((keptAt keep proposals).filterMap (r.candidate? diagnostics source)).mergeSort precedes =
      ((r.considered proposals diagnostics source).filter fun a => keep a.2).map (·.1) := by
  rw [considered, filter_mergeSort (fun a b c => precedes_trans a.1 b.1 c.1)
    (fun a b => precedes_total a.1 b.1), List.map_mergeSort (s := precedes) fun _ _ _ _ => rfl,
    filterMap_keptAt]

/-- A sublist that keeps the places of the accepted proposals has the same ones accepted. Candidates
of the long run that are missing in the short one were not accepted, so `accepted_foldl_filter`
applies. -/
theorem accepted_resolve_keptAt {keep : Nat → Bool}
    (hkeep : ∀ a ∈ (r.tally proposals diagnostics source).accepted, keep a.2 = true) :
    (r.resolve (keptAt keep proposals) diagnostics source).accepted =
      (r.resolve proposals diagnostics source).accepted := by
  let start : Tally :=
    { rejected := placed (r.dismissed? diagnostics source) (keptAt keep proposals) }
  let kept := (r.considered proposals diagnostics source).filter fun a => keep a.2
  have hrun : (kept.foldl Tally.accept start).accepted =
      (r.tally proposals diagnostics source).accepted :=
    Tally.accepted_foldl_filter (show start.accepted = [] from rfl) hkeep
  -- The run on the sublist, as a run on candidates with the places they had in the whole list.
  have hresolution : r.resolve (keptAt keep proposals) diagnostics source =
      (kept.foldl Tally.accept start).resolution := by
    rw [resolve_eq, map_fst_considered_kept, Tally.resolution_foldl_accept, Tally.resolution,
      map_fst_placed]
    rfl
  rw [hresolution, ← resolution_tally, Tally.resolution, Tally.resolution, hrun]

/-- A list of proposals that judging lets through unchanged, in the order of consideration and
without conflicts, is accepted as it is. -/
theorem resolve_eq_self (hjudge : ∀ p ∈ proposals, r.judge diagnostics source p = (p, none))
    (hsorted : proposals.Pairwise fun p q => precedes p q = true)
    (hfree : proposals.Pairwise fun p q => p.conflictsWith q = false) :
    r.resolve proposals diagnostics source = ⟨proposals, []⟩ := by
  have hcandidates : proposals.filterMap (r.candidate? diagnostics source) = proposals := by
    have hsome : ∀ p ∈ proposals, r.candidate? diagnostics source p = some p := by
      intro p hp
      rw [candidate?, hjudge p hp]
      rfl
    rw [List.filterMap_congr hsome, List.filterMap_some]
  have hdismissed : proposals.filterMap (r.dismissed? diagnostics source) = [] := by
    refine List.filterMap_eq_nil_iff.2 fun p hp => ?_
    rw [dismissed?, hjudge p hp]
    rfl
  rw [resolve_eq, hcandidates, hdismissed, List.mergeSort_of_pairwise hsorted,
    Resolution.foldl_accept_of_free (by simpa using hfree)]
  simp

/-- What was accepted is accepted again, all of it and in the same order. Accepted proposals have
all that `resolve_eq_self` asks for. -/
theorem resolve_accepted (r : Resolver) (proposals : List Proposal)
    (diagnostics : List Diagnostic) (source : String) :
    r.resolve (r.resolve proposals diagnostics source).accepted diagnostics source =
      ⟨(r.resolve proposals diagnostics source).accepted, []⟩ := by
  have hearlier := r.considered_pairwise_earlier proposals diagnostics source
  obtain ⟨lost, h⟩ := Tally.settled_foldl_accept
    (placed (r.dismissed? diagnostics source) proposals) hearlier
  change (r.tally proposals diagnostics source).Settled _ _ _ at h
  have haccepted : (r.resolve proposals diagnostics source).accepted =
      (r.tally proposals diagnostics source).accepted.map (·.1) := by
    rw [← resolution_tally]
    rfl
  rw [haccepted]
  refine resolve_eq_self (fun q hq => ?_) ?_ ?_
  · obtain ⟨⟨_, i⟩, ha, rfl⟩ := List.mem_map.1 hq
    obtain ⟨p, -, hjudge⟩ := mem_considered.1 (h.accepted.subset ha)
    exact judge_of_judge hjudge
  · -- The accepted ones are a sublist of the candidates, which were sorted.
    exact List.pairwise_map.2 ((hearlier.sublist h.accepted).imp precedes_of_earlier)
  · exact List.pairwise_map.2 h.free

/-- Rejected proposals have no influence. The resolver is run on a list of proposals, and `tally`
tells at which places of the list the accepted ones stand. Every sublist that still has these places
has the same proposals accepted, in the same order, whatever else it has lost; a proposal that
equals an accepted one and stands elsewhere does not count as the accepted one. Resolved once more,
the accepted proposals are all accepted in the same order, and none is rejected. -/
theorem resolve_ignores_rejected (r : Resolver) (proposals : List Proposal)
    (diagnostics : List Diagnostic) (source : String) :
    (r.tally proposals diagnostics source).resolution = r.resolve proposals diagnostics source ∧
    (∀ a ∈ (r.tally proposals diagnostics source).accepted,
      ∃ p, proposals[a.2]? = some p ∧ a.1.Reordered p) ∧
    (∀ kept : List (Proposal × Nat), kept.Sublist proposals.zipIdx →
      (∀ a ∈ (r.tally proposals diagnostics source).accepted, a.2 ∈ kept.map (·.2)) →
      (r.resolve (kept.map (·.1)) diagnostics source).accepted =
        (r.resolve proposals diagnostics source).accepted) ∧
    r.resolve (r.resolve proposals diagnostics source).accepted diagnostics source =
      ⟨(r.resolve proposals diagnostics source).accepted, []⟩ := by
  refine ⟨resolution_tally r proposals diagnostics source, ?_, ?_, ?_⟩
  · intro a ha
    obtain ⟨lost, h⟩ := Tally.settled_foldl_accept
      (placed (r.dismissed? diagnostics source) proposals)
      (r.considered_pairwise_earlier proposals diagnostics source)
    exact reordered_of_mem_considered (h.accepted.subset ha)
  · -- A sublist of the list with its places is what is left at a set of places.
    intro kept hkept haccepted
    rw [map_fst_eq_keptAt hkept]
    exact accepted_resolve_keptAt fun a ha => decide_eq_true (haccepted a ha)
  · exact resolve_accepted r proposals diagnostics source

/-- A finding on a text of two characters, and three fixes for it. The second conflicts with the
first, the third comes behind both. -/
def wholeText : Diagnostic :=
  { code := "A1", rule := "whole", severity := .warning, range := ⟨0, 2⟩, message := "found" }

/-- Replaces the first character. -/
def firstOnly : Proposal := { edits := [⟨⟨0, 1⟩, "x"⟩], label := "first" }

/-- Replaces both characters. -/
def bothAtOnce : Proposal := { edits := [⟨⟨0, 2⟩, "y"⟩], label := "both" }

/-- Inserts a character behind both. -/
def atTheEnd : Proposal := { edits := [⟨⟨2, 2⟩, "z"⟩], label := "end" }

/-- The loser in the middle is taken away, and the other two are accepted as before. Proposed once
more by themselves, they are accepted again. -/
theorem resolve_ignores_rejected_middle :
    (tally {} [firstOnly, bothAtOnce, atTheEnd] [wholeText] "ab").accepted =
      [(firstOnly, 0), (atTheEnd, 2)] ∧
    (resolve {} [firstOnly, atTheEnd] [wholeText] "ab").accepted =
      (resolve {} [firstOnly, bothAtOnce, atTheEnd] [wholeText] "ab").accepted ∧
    resolve {} (resolve {} [firstOnly, bothAtOnce, atTheEnd] [wholeText] "ab").accepted
        [wholeText] "ab" =
      ⟨(resolve {} [firstOnly, bothAtOnce, atTheEnd] [wholeText] "ab").accepted, []⟩ := by
  -- The candidates stand in the order of consideration, so the sort leaves them there.
  have hplaced : placed (candidate? {} [wholeText] "ab") [firstOnly, bothAtOnce, atTheEnd] =
      [(firstOnly, 0), (bothAtOnce, 1), (atTheEnd, 2)] := by decide +kernel
  have hconsidered : considered {} [firstOnly, bothAtOnce, atTheEnd] [wholeText] "ab" =
      [(firstOnly, 0), (bothAtOnce, 1), (atTheEnd, 2)] := by
    rw [considered, hplaced]
    exact List.mergeSort_of_pairwise (by decide)
  have haccepted : (tally {} [firstOnly, bothAtOnce, atTheEnd] [wholeText] "ab").accepted =
      [(firstOnly, 0), (atTheEnd, 2)] := by
    rw [tally, hconsidered]
    decide +kernel
  obtain ⟨-, -, hsublist, hagain⟩ :=
    resolve_ignores_rejected {} [firstOnly, bothAtOnce, atTheEnd] [wholeText] "ab"
  refine ⟨haccepted, hsublist [(firstOnly, 0), (atTheEnd, 2)] ?_ ?_, hagain⟩
  · decide
  · rw [haccepted]
    decide

end Resolver

end Arborist
