import Arborist.Engine
import Arborist.Proofs.Fix.Proposal

/-!
# `Arborist.Proofs.Fix.Resolver`: the resolver's script can always be applied

Whatever the proposals are, the resolver accepts clean ones that do not conflict with each other
(`Compatible`). One step keeps this (`Compatible.accept`), so the whole run does
(`compatible_resolve`). The edits of compatible proposals, thrown together and sorted, lie one
before the other, which is what the applier asks for.

`script_applies` is the main result. It says so for every list of proposals and draws the
consequence that fixing a file never ends in an error.
-/

set_option autoImplicit false

namespace Arborist

namespace Proposal

/-- Proposals do not conflict if no edit of the one conflicts with an edit of the other. -/
theorem conflictsWith_eq_false_iff {p q : Proposal} :
    p.conflictsWith q = false ↔
      ∀ a ∈ p.edits, ∀ b ∈ q.edits, a.range.conflictsWith b.range = false := by
  simp [conflictsWith]

end Proposal

namespace Resolution

/-- The accepted proposals are clean and do not conflict with each other. -/
structure Compatible (source : String) (r : Resolution) : Prop where
  clean : ∀ p ∈ r.accepted, p.Clean source
  free : r.accepted.Pairwise fun p q => p.conflictsWith q = false

/-- A candidate is accepted only if no accepted proposal conflicts with it. So one step keeps the
accepted proposals compatible, provided that the candidate is clean. -/
theorem Compatible.accept {source : String} {r : Resolution} {candidate : Proposal}
    (h : r.Compatible source) (hclean : candidate.Clean source) :
    (r.accept candidate).Compatible source := by
  rw [Resolution.accept]
  split
  · -- The candidate loses and is put with the rejected ones.
    exact ⟨h.clean, h.free⟩
  · rename_i hnone
    refine ⟨fun p hp => ?_, ?_⟩
    · rcases List.mem_append.1 hp with hp | hp
      · exact h.clean p hp
      · rw [List.mem_singleton.1 hp]
        exact hclean
    · refine List.pairwise_append.2 ⟨h.free, List.pairwise_singleton _ _, fun p hp q hq => ?_⟩
      rw [List.mem_singleton.1 hq]
      simpa using List.find?_eq_none.1 hnone p hp

/-- The invariant of the whole run: considering clean candidates one after the other keeps the
accepted ones compatible. -/
theorem Compatible.foldl_accept {source : String} {r : Resolution} {candidates : List Proposal}
    (h : r.Compatible source) (hclean : ∀ p ∈ candidates, p.Clean source) :
    (candidates.foldl Resolution.accept r).Compatible source := by
  induction candidates generalizing r with
  | nil => exact h
  | cons candidate candidates ih =>
      exact ih (h.accept (hclean candidate (by simp))) fun p hp => hclean p (by simp [hp])

/-- Edits of compatible proposals do not conflict, whether they come from one proposal or from
two. -/
theorem Compatible.edits_free {source : String} {r : Resolution} (h : r.Compatible source) :
    (r.accepted.flatMap (·.edits)).Pairwise fun a b => a.range.conflictsWith b.range = false := by
  refine List.pairwise_flatMap.2 ⟨fun p hp => ?_, ?_⟩
  · exact (h.clean p hp).before.imp fun hab => hab.conflictsWith_eq_false
  · exact h.free.imp fun hpq => Proposal.conflictsWith_eq_false_iff.1 hpq

/-- Every edit of the script is one of an accepted proposal, and cuts the text between
characters. -/
theorem Compatible.script_cuts {source : String} {r : Resolution} (h : r.Compatible source) :
    ∀ edit ∈ r.script, edit.range.Cuts source := by
  intro edit hedit
  obtain ⟨p, hp, hmem⟩ := List.mem_flatMap.1 (Edit.mem_sort.1 hedit)
  exact (h.clean p hp).cuts edit hmem

/-- The edits of the script lie one before the other, however many proposals they come from. -/
theorem Compatible.script_before {source : String} {r : Resolution} (h : r.Compatible source) :
    r.script.Pairwise fun a b => a.range.Before b.range :=
  Edit.sort_pairwise_before
    (fun edit hedit => (h.script_cuts edit (Edit.mem_sort.2 hedit)).ordered) h.edits_free

end Resolution

namespace Resolver

/-- A proposal that is not thrown out on its own is clean. Its diagnostic is known, it is not too
risky, and it passed its check. -/
theorem clean_of_judge {r : Resolver} {diagnostics : List Diagnostic} {source : String}
    {p : Proposal} (h : (r.judge diagnostics source p).2 = none) :
    (r.judge diagnostics source p).1.Clean source := by
  simp only [judge] at h ⊢
  split at h
  · cases h
  · split at h
    · cases h
    · rename_i hsafe
      rw [if_neg hsafe]
      exact Proposal.clean_of_validate (Option.map_eq_none_iff.1 h)

/-- Whatever is proposed, the accepted proposals are clean and do not conflict. The candidates are
the proposals that were not thrown out, in the order of consideration, which does not matter
here. -/
theorem compatible_resolve (r : Resolver) (proposals : List Proposal)
    (diagnostics : List Diagnostic) (source : String) :
    (r.resolve proposals diagnostics source).Compatible source := by
  refine Resolution.Compatible.foldl_accept ⟨by simp, List.Pairwise.nil⟩ fun p hp => ?_
  obtain ⟨⟨q, out⟩, hq, hout⟩ := List.mem_filterMap.1 (List.mem_mergeSort.1 hp)
  obtain ⟨proposal, -, hjudge⟩ := List.mem_map.1 hq
  -- `p` is a proposal as judging left it, with no reason to be out.
  dsimp only at hout
  split at hout
  · rename_i hnone
    cases hout
    have hclean := clean_of_judge (r := r) (p := proposal)
      (by rw [hjudge]; exact Option.isNone_iff_eq_none.1 hnone)
    rwa [hjudge] at hclean
  · cases hout

/-- The script can always be applied. For every list of proposals, every list of diagnostics and
every text, no two edits of the resolver's script conflict, each edit ends no later than the next
one starts and starts strictly further left, and the script is applied without an error. So fixing a
file has an outcome, for every engine, file, tree and report. -/
theorem script_applies :
    (∀ (r : Resolver) (proposals : List Proposal) (diagnostics : List Diagnostic)
      (source : String),
      let script := (r.resolve proposals diagnostics source).script
      (∀ (i j : Nat) (hi : i < script.length) (hj : j < script.length), i ≠ j →
        script[i].range.conflictsWith script[j].range = false) ∧
      (∀ (i : Nat) (hi : i + 1 < script.length),
        script[i].range.stop ≤ script[i + 1].range.start ∧
        script[i].range.start < script[i + 1].range.start) ∧
      ∃ text, applyEdits source script = .ok text) ∧
    ∀ (e : Engine) (file : SourceFile) (tree : SyntaxTree) (report : FileReport)
      (allowRisky : Bool), ∃ outcome, e.fix file tree report allowRisky = .ok outcome := by
  have happlies := fun (r : Resolver) proposals diagnostics source =>
    let h := r.compatible_resolve proposals diagnostics source
    applyEdits_eq_ok h.script_cuts h.script_before
  refine ⟨fun r proposals diagnostics source => ?_, fun e file tree report allowRisky => ?_⟩
  · have hbefore := List.pairwise_iff_getElem.1
      (r.compatible_resolve proposals diagnostics source).script_before
    refine ⟨fun i j hi hj hne => ?_, fun i hi => ?_, happlies r proposals diagnostics source⟩
    · -- In the script one edit is entirely in front of the other, and conflicts go both ways.
      rcases Nat.lt_or_gt_of_ne hne with hlt | hgt
      · exact (hbefore i j hi hj hlt).conflictsWith_eq_false
      · rw [TextRange.conflictsWith_comm]
        exact (hbefore j i hj hi hgt).conflictsWith_eq_false
    · exact hbefore i (i + 1) (by omega) hi (by omega)
  · -- An empty script is not applied at all, any other by `happlies`.
    simp only [Engine.fix]
    split
    · exact ⟨_, rfl⟩
    · obtain ⟨text, htext⟩ := happlies
        { slack := e.config.analyzer.fixSlack
          allowRisky := allowRisky || e.config.analyzer.unsafeFixes }
        (e.proposals file tree report) report.diagnostics file.content
      rw [htext]
      exact ⟨_, rfl⟩

end Resolver

end Arborist
