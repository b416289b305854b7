import Arborist.Proofs.Fix.Selection
import Arborist.Proofs.Rules.Completion

/-!
# `Arborist.Proofs.Rules.FittingFix`: fixes that always fit their diagnostic

A proposal is invalid if one of its edits cuts into a character or reaches too far beyond the
diagnostic. Three of the four fixes that rules propose find a node with the very range of the
diagnostic and replace all of it, or its end, so they fit without any slack. This needs nodes that
begin and end between characters, which validation does not ask for, and a source that offsets of 64
bits can address.

The fourth fix deletes a statement that starts where the diagnostic does and may end far behind it.
`only_deletions_invalid` says that it is the only one that can be invalid.

`analysis_never_fails` puts this together with `BuiltIn.completes`.
-/

set_option autoImplicit false

namespace Arborist

open Text

/-! ### Proposals of one edit -/

namespace Proposal

/-- The range cuts the source between characters, and so does the one edit of the proposal, inside
the range. -/
structure FitsIn (source : String) (range : TextRange) (p : Proposal) : Prop where
  cuts : range.Cuts source
  single : ∃ edit, p.edits = [edit] ∧ edit.range.Cuts source ∧ range.contains edit.range = true

/-- Slack only widens what is allowed, as far as the source goes. Numbers do not run over, because
the source is no longer than an offset can be. -/
theorem contains_expand {range inner : TextRange} {length : Nat} (hrange : range.stop ≤ length)
    (hlength : length ≤ maxOffset) (h : range.contains inner = true) (slack : Nat) :
    (range.expand slack length).contains inner = true := by
  simp only [TextRange.contains, Bool.and_eq_true, decide_eq_true_eq] at h
  refine Bool.and_eq_true_iff.2 ⟨decide_eq_true ?_, decide_eq_true ?_⟩
  · exact Nat.le_trans (Nat.sub_le _ _) h.1
  · simp only [TextRange.expand, addOffset, Nat.le_min]
    omega

/-- A proposal that fits passes every check: there is an edit, it lies in the source and between
characters, it stays within the slack, and there is no other edit to overlap with. -/
theorem FitsIn.validate_eq_none {source : String} {range : TextRange} {p : Proposal}
    (h : p.FitsIn source range) (hlength : byteLength source.toList ≤ maxOffset) (slack : Nat) :
    (p.validate slack range source).2 = none := by
  obtain ⟨edit, hedits, hcuts, hinside⟩ := h.single
  have hfault := editFault?_eq_none hcuts (contains_expand h.cuts.bounded hlength hinside slack)
  have hsorted : p.sorted.edits = [edit] := by
    rw [sorted, hedits]
    exact List.mergeSort_singleton _
  simp only [validate]
  simp [hedits, hfault, hsorted, neighbourFault?]

end Proposal

/-! ### What the rules propose -/

namespace Rules

/-- The deletion of a debugging statement, proposed by the rule against debugging macros. -/
def DebugMacro.IsDeletion (rule : Rule) (p : Proposal) : Prop :=
  rule = DebugMacro.rule ∧ p.label = "remove debug statement"

section
variable {file : SourceFile} {tree : SyntaxTree} {d : Diagnostic} {p : Proposal}
  (hcuts : ∀ node ∈ tree.nodes, node.range.Cuts file.content)
include hcuts

/-- What stands behind the receiver of a call is replaced. The receiver is a front part of the
call's text, so the edit starts between two characters. -/
theorem UnwrapExpect.fitsIn_of_mem_propose (h : p ∈ propose file tree d) :
    p.FitsIn file.content d.range := by
  obtain ⟨id, node, receiver, hnode, hreceiver, -, hedits⟩ := exists_of_mem_propose h
  obtain ⟨hmem, hrange, -⟩ := SyntaxTree.of_nodeAt? hnode
  have hnodeCuts := hcuts node hmem
  -- The text of the node is its slice of the source, and begins with the receiver.
  obtain ⟨chars, hslice⟩ := exists_sliceChars hnodeCuts.ordered hnodeCuts.start hnodeCuts.stop
  have htext : (file.text node.range).toList = chars := by
    rw [SourceFile.text, slice?, hslice]
    exact String.toList_ofList
  rw [htext] at hreceiver
  obtain ⟨rest, rfl⟩ := prefix_of_receiver? hreceiver
  obtain ⟨front, back, hsplit, hstart, hstop⟩ := sliceChars_eq_some_iff.1 hslice
  rw [byteLength_append] at hstop
  have hboundary : isBoundary file.content (node.range.start + byteLength receiver) = true := by
    refine isBoundary_iff.2 ⟨front ++ receiver, rest ++ back, ?_, ?_⟩
    · rw [hsplit]
      simp
    · rw [byteLength_append, hstart]
  rw [← hrange]
  refine ⟨hnodeCuts, _, hedits, ⟨?_, hboundary, hnodeCuts.stop⟩, ?_⟩
  · show node.range.start + byteLength receiver ≤ node.range.stop
    omega
  · simp [TextRange.contains]

/-- A call of `dbg!` is replaced as a whole. The other proposal of this rule is the deletion of a
statement. -/
theorem DebugMacro.fitsIn_of_mem_propose (h : p ∈ propose file tree d) :
    p.FitsIn file.content d.range ∨ p.label = "remove debug statement" := by
  rcases exists_of_mem_propose h with ⟨id, call, argument, hcall, -, -, hedits⟩ | hdeletion
  · obtain ⟨hmem, hrange, -⟩ := SyntaxTree.of_nodeAt? hcall
    rw [← hrange]
    refine .inl ⟨hcuts call hmem, _, hedits, hcuts call hmem, ?_⟩
    simp [TextRange.contains]
  · exact .inr hdeletion.2

/-- A comparison is replaced as a whole, so the range of the edit is that of the finding. -/
theorem LengthComparison.fitsIn_of_mem_propose {proposals : List Proposal}
    (h : propose file tree d = .ok proposals) (hp : p ∈ proposals) :
    p.FitsIn file.content d.range := by
  obtain ⟨id, node, call, negated, receiver, hnode, hcompares, hreceiver, hedits⟩ :=
    exists_of_mem_propose h hp
  obtain ⟨hmem, hrange, -⟩ := SyntaxTree.of_nodeAt? hnode
  have hrangeCuts := hcuts node hmem
  rw [hrange] at hrangeCuts
  refine ⟨hrangeCuts, _, hedits, hrangeCuts, ?_⟩
  simp [TextRange.contains]

/-- Every proposal of a rule fits, unless it is that deletion. One case for each built-in rule; two
of them propose nothing. -/
theorem BuiltIn.fitsIn {rule : Rule} (h : BuiltIn rule)
    (hp : p ∈ (rule.propose file tree d).getD []) :
    p.FitsIn file.content d.range ∨ DebugMacro.IsDeletion rule p := by
  cases h with
  | unwrapExpect settings => exact .inl (UnwrapExpect.fitsIn_of_mem_propose hcuts hp)
  | debugMacro => exact (DebugMacro.fitsIn_of_mem_propose hcuts hp).imp_right fun h => ⟨rfl, h⟩
  | lengthComparison =>
      obtain ⟨proposals, hproposals, hmem⟩ := LengthComparison.eq_ok_of_mem_propose hp
      exact .inl (LengthComparison.fitsIn_of_mem_propose hcuts hproposals hmem)
  | docComment settings => cases hp
  | placeholder => cases hp

end

end Rules

/-! ### Rejections -/

namespace Resolution

/-- What a run rejects loses against an accepted proposal. So whatever is rejected as invalid was
rejected before the run. -/
theorem mem_rejected_foldl {r : Resolution} {candidates : List Proposal} {f : RejectedFix}
    (h : f ∈ (candidates.foldl accept r).rejected) :
    f ∈ r.rejected ∨ ∃ label, f.reason = .conflict label := by
  induction candidates generalizing r with
  | nil => exact .inl h
  | cons candidate candidates ih =>
      rcases ih h with h | h
      · rw [accept] at h
        split at h
        · -- The candidate loses against the winner, whose label is the reason.
          rename_i winner _
          rcases List.mem_append.1 h with h | h
          · exact .inl h
          · rw [List.mem_singleton.1 h]
            exact .inr ⟨winner.label, rfl⟩
        · exact .inl h
      · exact .inr h

end Resolution

/-- A proposal that is rejected as invalid was thrown out when it was judged. Later it can only be
rejected for a conflict with another one. -/
theorem Resolver.judge_of_invalid {r : Resolver} {proposals : List Proposal}
    {diagnostics : List Diagnostic} {source : String} {f : RejectedFix} {error : FixError}
    (h : f ∈ (r.resolve proposals diagnostics source).rejected)
    (hreason : f.reason = .invalid error) :
    ∃ p ∈ proposals, r.judge diagnostics source p = (f.proposal, some (.invalid error)) := by
  rcases Resolution.mem_rejected_foldl h with h | ⟨label, hconflict⟩
  · obtain ⟨⟨checked, out⟩, hjudged, hout⟩ := List.mem_filterMap.1 h
    obtain ⟨p, hp, hjudge⟩ := List.mem_map.1 hjudged
    obtain ⟨reason, rfl, rfl⟩ := Option.map_eq_some_iff.1 hout
    exact ⟨p, hp, by rw [hjudge, ← hreason]⟩
  · rw [hreason] at hconflict
    cases hconflict

/-- A proposal is what the rule found for its diagnostic proposes. The engine looks the rule up by
the code of the diagnostic, and numbers the proposal by the position of the diagnostic. -/
theorem Engine.exists_found_of_mem_proposals {e : Engine} {file : SourceFile} {tree : SyntaxTree}
    {report : FileReport} {p : Proposal} (h : p ∈ e.proposals file tree report) :
    ∃ d rule, report.diagnostics[p.diagnostic]? = some d ∧ e.catalog.get? d.code = some rule ∧
      ∃ q ∈ (rule.propose file tree d).getD [], p = { q with diagnostic := p.diagnostic } := by
  obtain ⟨⟨d, position⟩, hd, hp⟩ := List.mem_flatMap.1 h
  dsimp only at hp
  split at hp
  · split at hp
    · rename_i rule hrule
      obtain ⟨q, hq, rfl⟩ := List.mem_map.1 hp
      exact ⟨d, rule, List.mem_zipIdx_iff_getElem?.1 hd, hrule, q, hq, rfl⟩
    · cases hp
  · cases hp

/-- Of all that the rules propose, only the deletion of a debugging statement can be invalid. Every
other proposal fits its finding, and one that fits passes its check with any slack. -/
theorem only_deletions_invalid {e : Engine} (hrules : ∀ rule ∈ e.catalog.rules, Rules.BuiltIn rule)
    {file : SourceFile} {tree : SyntaxTree} (hlength : byteLength file.content.toList ≤ maxOffset)
    (hcuts : ∀ node ∈ tree.nodes, node.range.Cuts file.content) {resolver : Resolver}
    {report : FileReport} {f : RejectedFix} {error : FixError}
    (hf : f ∈ (resolver.resolve (e.proposals file tree report) report.diagnostics
      file.content).rejected) (hreason : f.reason = .invalid error) :
    ∃ d, report.diagnostics[f.proposal.diagnostic]? = some d ∧
      e.catalog.get? d.code = some Rules.DebugMacro.rule ∧
      f.proposal.label = "remove debug statement" := by
  obtain ⟨p, hp, hjudge⟩ := Resolver.judge_of_invalid hf hreason
  obtain ⟨d, rule, hd, hrule, q, hq, hpq⟩ := Engine.exists_found_of_mem_proposals hp
  -- Judging a proposal changes the order of its edits at most.
  have hsame : f.proposal.diagnostic = p.diagnostic ∧ f.proposal.label = p.label := by
    have hreordered := (resolver.reordered_judge report.diagnostics file.content p).1
    rw [hjudge] at hreordered
    have hproposal : f.proposal = { p with edits := f.proposal.edits } := hreordered
    rw [hproposal]
    exact ⟨rfl, rfl⟩
  rw [hsame.1, hsame.2]
  rcases (hrules rule (List.mem_of_find?_eq_some hrule)).fitsIn hcuts hq with hfits | hdeletion
  · -- A proposal that fits passes its check, so that it is not invalid.
    have hpfits : p.FitsIn file.content d.range := by
      rw [hpq]
      exact ⟨hfits.cuts, hfits.single⟩
    have hvalid := hpfits.validate_eq_none hlength resolver.slack
    have hout := congrArg Prod.snd hjudge
    by_cases hforbids : resolver.Forbids p
    · rw [Resolver.judge_of_forbids hd hforbids] at hout
      cases hout
    · rw [Resolver.judge_of_allowed hd hforbids, hvalid] at hout
      cases hout
  · obtain ⟨rfl, hlabel⟩ := hdeletion
    refine ⟨d, hd, hrule, ?_⟩
    rw [hpq]
    exact hlabel

/-- On a valid tree an analysis never fails. For every configuration and every file with a valid
tree there is an engine and a report. No rule has failed: the report counts no failures and holds
findings only, all of them inside the source. More than that, every callback of every rule comes to
an end at every node, and every rule has an answer for every diagnostic that it is asked to fix.

Let all nodes begin and end between characters, in a source that offsets of 64 bits can address.
Then, for whatever report fixes are asked and whatever the slack is, a proposal is rejected as
invalid only if it belongs to the rule against debugging macros and deletes a statement. -/
theorem analysis_never_fails (config : Config) (file : SourceFile) (tree : SyntaxTree)
    (hvalid : tree.validate (byteLength file.content.toList) = .ok ()) :
    ∃ engine report, Engine.ofConfig config = .ok engine ∧
      engine.analyze file tree = .ok report ∧
      report.stats.failedRules = 0 ∧
      (∀ d ∈ report.diagnostics,
        d.isFinding = true ∧ d.range.Inside (byteLength file.content.toList)) ∧
      (∀ rule ∈ engine.catalog.rules, rule.Completes file tree) ∧
      (byteLength file.content.toList ≤ maxOffset →
        (∀ node ∈ tree.nodes, node.range.Cuts file.content) →
        ∀ (resolver : Resolver) (asked : FileReport) (f : RejectedFix) (error : FixError),
          f ∈ (resolver.resolve (engine.proposals file tree asked) asked.diagnostics
            file.content).rejected →
          f.reason = .invalid error →
          ∃ d, asked.diagnostics[f.proposal.diagnostic]? = some d ∧
            (d.code = "TL002" ∨ d.code = "no-debug-macro") ∧
            f.proposal.label = "remove debug statement") := by
  have hbuiltIn : ∀ rule ∈ (Preset.ofConfig config).rules config, Rules.BuiltIn rule :=
    fun rule hrule => Preset.builtIn_of_mem_rules hrule
  have hcompletes : ∀ rule ∈ (Preset.ofConfig config).rules config, rule.Completes file tree :=
    fun rule hrule => (hbuiltIn rule hrule).completes hvalid
  -- The engine is known, so everything is about its rules, whichever of them the preset chooses.
  obtain ⟨report, hreport⟩ := Engine.analyzed_of_valid
    ⟨⟨(Preset.ofConfig config).rules config⟩, config⟩ hvalid
  obtain ⟨hfailed, hfindings⟩ := hreport.of_completes hcompletes
  refine ⟨_, report, Engine.ofConfig_eq_ok config, hreport.ok, hfailed, hfindings, hcompletes, ?_⟩
  intro hlength hcuts resolver asked f error hf hreason
  obtain ⟨d, hd, hrule, hlabel⟩ := only_deletions_invalid hbuiltIn hlength hcuts hf hreason
  refine ⟨d, hd, ?_, hlabel⟩
  -- A rule is found by its code or by its name, and a diagnostic can ask for it by either.
  have hanswers := List.find?_some hrule
  simp only [Descriptor.answersTo, Bool.or_eq_true, decide_eq_true_eq] at hanswers
  exact hanswers.imp Eq.symm Eq.symm

/-- The tree of `fn f(){é.unwrap();dbg!(b);v.len()==0}`. -/
def mixedTree : SyntaxTree :=
  OrderedTree.arena <| .node .file ⟨0, 38⟩ none [.node .function ⟨0, 38⟩ (some "f") [
    .node .block ⟨6, 38⟩ none [
      .node .methodCall ⟨7, 18⟩ (some "unwrap") [.node .path ⟨7, 9⟩ (some "é") []],
      .node .macroStatement ⟨19, 27⟩ (some "dbg") [.node .macroCall ⟨19, 26⟩ (some "dbg") []],
      .node .binary ⟨27, 37⟩ (some "==") [
        .node .methodCall ⟨27, 34⟩ (some "len") [.node .path ⟨27, 28⟩ (some "v") []],
        .node .numberLiteral ⟨36, 37⟩ (some "0") []]]]]

instance (text : String) (r : TextRange) : Decidable (r.Cuts text) :=
  decidable_of_iff (r.start ≤ r.stop ∧ isBoundary text r.start = true ∧
    isBoundary text r.stop = true)
    ⟨fun ⟨hordered, hstart, hstop⟩ => ⟨hordered, hstart, hstop⟩,
      fun h => ⟨h.ordered, h.start, h.stop⟩⟩

/-- A report of findings in that source. The last one is shorter than the statement it is about. -/
def mixedReport : FileReport :=
  let finding (code : String) (range : TextRange) : Diagnostic :=
    { code, rule := "", severity := .warning, range, message := "" }
  { path := "src/lib.rs", category := .source
    diagnostics := [finding "TL001" ⟨7, 18⟩, finding "TL002" ⟨19, 26⟩, finding "TL003" ⟨27, 37⟩,
      finding "TL002" ⟨19, 20⟩] }

/-- All four kinds of fixes are proposed for one file, and only the deletion can be rejected as
invalid. -/
theorem analysis_never_fails_mixed :
    let file := SourceFile.ofPath "src/lib.rs" "fn f()\x7bé.unwrap();dbg!(b);v.len()==0\x7d" ""
    mixedTree.validate (byteLength file.content.toList) = .ok () ∧
      byteLength file.content.toList ≤ maxOffset ∧
      (∀ node ∈ mixedTree.nodes, node.range.Cuts file.content) ∧
      ∃ engine report, Engine.ofConfig {} = .ok engine ∧
        engine.analyze file mixedTree = .ok report ∧ report.stats.failedRules = 0 ∧
        (engine.proposals file mixedTree mixedReport).map (·.label) =
          ["replace `.unwrap()` with `?`", "unwrap `dbg!` call", "use `.is_empty()`",
            "remove debug statement"] ∧
        ∀ (f : RejectedFix) (error : FixError),
          f ∈ (Resolver.resolve ⟨0, true⟩ (engine.proposals file mixedTree mixedReport)
            mixedReport.diagnostics file.content).rejected →
          f.reason = .invalid error → f.proposal.label = "remove debug statement" := by
  intro file
  have hvalid : mixedTree.validate (byteLength file.content.toList) = .ok () :=
    eq_ok_of_toOption (by decide +kernel)
  have hlength : byteLength file.content.toList ≤ maxOffset := by decide +kernel
  have hcuts : ∀ node ∈ mixedTree.nodes, node.range.Cuts file.content := by decide +kernel
  obtain ⟨engine, report, hengine, hreport, hfailed, -, -, hinvalid⟩ :=
    analysis_never_fails {} file mixedTree hvalid
  -- The engine of the theorem is the one that the proposals are computed with.
  obtain rfl := Except.ok.inj ((Engine.ofConfig_eq_ok {}).symm.trans hengine)
  refine ⟨hvalid, hlength, hcuts, _, report, hengine, hreport, hfailed, by decide +kernel,
    fun f error hf hreason => ?_⟩
  obtain ⟨d, -, -, hlabel⟩ := hinvalid hlength hcuts ⟨0, true⟩ mixedReport f error hf hreason
  exact hlabel

end Arborist
