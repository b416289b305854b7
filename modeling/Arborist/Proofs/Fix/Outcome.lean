import Arborist.Proofs.Fix.Resolver

/-!
# `Arborist.Proofs.Fix.Outcome`: what fixing a file comes to

`Engine.fix` has an outcome for every report. `Engine.Fixes` says what it is made of: the resolution
of the proposals, its script, and the text with the script applied.

Every edit of the script can be traced back: to a proposal that was not thrown out
(`Resolver.exists_proposal_of_mem_script`), and from there to the rule that made it
(`Engine.Fixes.exists_rule`).
-/

set_option autoImplicit false

namespace Arborist

namespace Resolution

/-- Considering a candidate accepts that candidate or nothing. No other proposal can come in at this
step. -/
theorem mem_accepted_accept {r : Resolution} {candidate p : Proposal}
    (h : p ∈ (r.accept candidate).accepted) : p ∈ r.accepted ∨ p = candidate := by
  rw [accept] at h
  split at h
  · exact .inl h
  · rcases List.mem_append.1 h with h | h
    · exact .inl h
    · exact .inr (List.mem_singleton.1 h)

/-- What a run accepts was accepted before it or is one of its candidates. The induction is on the
candidates, with one step of `accept` for each. -/
theorem mem_accepted_foldl {r : Resolution} {candidates : List Proposal} {p : Proposal}
    (h : p ∈ (candidates.foldl accept r).accepted) : p ∈ r.accepted ∨ p ∈ candidates := by
  induction candidates generalizing r with
  | nil => exact .inl h
  | cons candidate candidates ih =>
      rcases ih h with h | h
      · rcases mem_accepted_accept h with h | rfl
        · exact .inl h
        · exact .inr (by simp)
      · exact .inr (by simp [h])

end Resolution

namespace Resolver

/-- A proposal that is not thrown out keeps its edits, in order, and is safe unless risky fixes were
asked for. -/
theorem edits_of_judge {r : Resolver} {diagnostics : List Diagnostic} {source : String}
    {p : Proposal} (h : (r.judge diagnostics source p).2 = none) :
    (r.judge diagnostics source p).1.edits = Edit.sort p.edits ∧
      (r.allowRisky = false → p.safety = .safe) := by
  simp only [judge] at h ⊢
  split at h
  · cases h
  · split at h
    · cases h
    · rename_i hsafe
      rw [if_neg hsafe]
      constructor
      · -- The check found no fault, so it has sorted the edits.
        simp only [Option.map_eq_none_iff] at h ⊢
        rw [Proposal.validate_eq_sorted h]
        rfl
      · intro hallow
        cases hsafety : p.safety with
        | safe => rfl
        | risky => simp [hsafety, hallow] at hsafe

/-- An accepted proposal is one that was not thrown out, as judging left it. The candidates are
sorted before the run, which adds none. -/
theorem judge_of_mem_accepted {r : Resolver} {proposals : List Proposal}
    {diagnostics : List Diagnostic} {source : String} {p : Proposal}
    (h : p ∈ (r.resolve proposals diagnostics source).accepted) :
    ∃ q ∈ proposals, r.judge diagnostics source q = (p, none) := by
  have hcandidate := (Resolution.mem_accepted_foldl h).resolve_left List.not_mem_nil
  obtain ⟨⟨judged, out⟩, hjudged, hout⟩ := List.mem_filterMap.1 (List.mem_mergeSort.1 hcandidate)
  obtain ⟨q, hq, hjudge⟩ := List.mem_map.1 hjudged
  dsimp only at hout
  split at hout
  · rename_i hnone
    cases hout
    exact ⟨q, hq, by rw [hjudge, Option.isNone_iff_eq_none.1 hnone]⟩
  · cases hout

/-- An edit of the script comes from a proposal, and from a safe one unless risky fixes were asked
for. Judging sorts the edits of a proposal and the script sorts them all; neither changes an
edit. -/
theorem exists_proposal_of_mem_script {r : Resolver} {proposals : List Proposal}
    {diagnostics : List Diagnostic} {source : String} {edit : Edit}
    (h : edit ∈ (r.resolve proposals diagnostics source).script) :
    ∃ p ∈ proposals, edit ∈ p.edits ∧ (r.allowRisky = false → p.safety = .safe) := by
  obtain ⟨accepted, haccepted, hedit⟩ := List.mem_flatMap.1 (Edit.mem_sort.1 h)
  obtain ⟨p, hp, hjudge⟩ := judge_of_mem_accepted haccepted
  obtain ⟨hedits, hsafe⟩ := edits_of_judge (r := r) (p := p) (by rw [hjudge])
  rw [hjudge] at hedits
  exact ⟨p, hp, Edit.mem_sort.1 (hedits ▸ hedit), hsafe⟩

end Resolver

namespace Engine

/-- How an engine judges proposals. -/
def resolver (e : Engine) (allowRisky : Bool) : Resolver where
  slack := e.config.analyzer.fixSlack
  allowRisky := allowRisky || e.config.analyzer.unsafeFixes

/-- Fixing what a report found ends in this outcome. -/
structure Fixes (e : Engine) (file : SourceFile) (tree : SyntaxTree) (report : FileReport)
    (allowRisky : Bool) (outcome : FixOutcome) : Prop where
  ok : e.fix file tree report allowRisky = .ok outcome
  resolution : outcome.resolution = (e.resolver allowRisky).resolve
    (e.proposals file tree report) report.diagnostics file.content
  edits : outcome.edits = outcome.resolution.script
  unchanged : outcome.fixed = none ↔ outcome.edits = []
  fixed : ∀ text, outcome.fixed = some text → applyEdits file.content outcome.edits = .ok text

/-- Fixing always has an outcome. The script of a resolution can be applied, and if it is empty the
text is not touched. -/
theorem exists_fixes (e : Engine) (file : SourceFile) (tree : SyntaxTree) (report : FileReport)
    (allowRisky : Bool) : ∃ outcome, e.Fixes file tree report allowRisky outcome := by
  obtain ⟨resolution, hresolution⟩ : ∃ resolution, resolution = (e.resolver allowRisky).resolve
      (e.proposals file tree report) report.diagnostics file.content := ⟨_, rfl⟩
  have hcompatible : resolution.Compatible file.content :=
    hresolution ▸ Resolver.compatible_resolve _ _ _ _
  obtain ⟨text, htext⟩ := applyEdits_eq_ok hcompatible.script_cuts hcompatible.script_before
  -- The engine asks first whether there is anything to apply.
  cases hempty : resolution.script.isEmpty with
  | true =>
      refine ⟨⟨resolution, resolution.script, none⟩, ?_, hresolution, rfl, ?_, fun _ h => ?_⟩
      · rw [hresolution] at hempty ⊢
        exact if_pos hempty
      · simpa using hempty
      · cases h
  | false =>
      refine ⟨⟨resolution, resolution.script, some text⟩, ?_, hresolution, rfl, ?_,
        fun _ h => Option.some.inj h ▸ htext⟩
      · rw [hresolution, resolver] at htext hempty ⊢
        simp only [fix, hempty, htext]
        rfl
      · simpa using hempty

/-- A proposal is what a rule of the catalog made of a diagnostic of the report. The engine replaces
only the position that the proposal names. -/
theorem exists_rule_of_mem_proposals {e : Engine} {file : SourceFile} {tree : SyntaxTree}
    {report : FileReport} {p : Proposal} (h : p ∈ e.proposals file tree report) :
    ∃ rule ∈ e.catalog.rules, ∃ d ∈ report.diagnostics,
      ∃ q ∈ (rule.propose file tree d).getD [], p.edits = q.edits ∧ p.safety = q.safety := by
  obtain ⟨⟨d, position⟩, hd, hp⟩ := List.mem_flatMap.1 h
  dsimp only at hp
  -- The diagnostic is a finding, and its code finds a rule; otherwise nothing is proposed.
  split at hp
  · split at hp
    · rename_i rule hrule
      obtain ⟨q, hq, rfl⟩ := List.mem_map.1 hp
      exact ⟨rule, List.mem_of_find?_eq_some hrule, d,
        (List.mem_zipIdx hd).2.2 ▸ List.getElem_mem _, q, hq, rfl, rfl⟩
    · cases hp
  · cases hp

/-- An edit that fixing makes was proposed by a rule of the catalog, and as a safe one if nobody
asks for others. -/
theorem Fixes.exists_rule {e : Engine} {file : SourceFile} {tree : SyntaxTree} {report : FileReport}
    {allowRisky : Bool} {outcome : FixOutcome} (h : e.Fixes file tree report allowRisky outcome)
    {edit : Edit} (hedit : edit ∈ outcome.edits) :
    ∃ rule ∈ e.catalog.rules, ∃ d ∈ report.diagnostics, ∃ q ∈ (rule.propose file tree d).getD [],
      edit ∈ q.edits ∧ ((e.resolver allowRisky).allowRisky = false → q.safety = .safe) := by
  rw [h.edits, h.resolution] at hedit
  obtain ⟨p, hp, hmem, hsafe⟩ := Resolver.exists_proposal_of_mem_script hedit
  obtain ⟨rule, hrule, d, hd, q, hq, hedits, hsafety⟩ := exists_rule_of_mem_proposals hp
  exact ⟨rule, hrule, d, hd, q, hq, hedits ▸ hmem, hsafety ▸ hsafe⟩

end Engine

end Arborist
