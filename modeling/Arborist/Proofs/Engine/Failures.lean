import Arborist.Proofs.Engine.CatalogOrder
import Arborist.Proofs.Walk.CallRecord

/-!
# `Arborist.Proofs.Engine.Failures`: what a failing rule leaves in a report

A rule that fails is reported once, at the node where it failed, and is not called again. What it
found until then stays. `FileReport.AccountsFor` says so about the report of a file and the records
of its walk, and `analyze_accounts_for_failures` proves it of every analysis.

The reporter holds the first report with each key (`Reporter.mem_ofCalls`), so two questions are
left. Is the report of a failure the first with its key? It is, because findings have another kind
and a second failure would have another code (`Faithful.nodup_codes`). And which are the reports of
one rule? Those under its code, which are the findings of its calls up to the failure
(`Faithful.filter_reports`).
-/

set_option autoImplicit false

namespace Arborist

/-- A diagnostic about the failure of a rule. -/
def Diagnostic.isInternal (d : Diagnostic) : Bool := d.kind = .internalError

namespace CallRecord

/-- The findings handed to the reporter in the calls of the rule at a position. -/
def findingsAt (position : Nat) (records : List CallRecord) : List Diagnostic :=
  (records.filter (·.position = position)).flatMap (·.findings)

/-- The findings at a position, call by call: each call of the rule contributes all of its findings,
and calls of other rules none. -/
theorem findingsAt_eq (position : Nat) (records : List CallRecord) :
    findingsAt position records =
      records.flatMap fun j => if j.position = position then j.findings else [] := by
  induction records with
  | nil => rfl
  | cons j records ih =>
      rw [List.flatMap_cons, ← ih, findingsAt, findingsAt, List.filter_cons]
      by_cases hposition : j.position = position <;> simp [hposition]

end CallRecord

namespace Recording.Faithful

variable {tree : SyntaxTree} {interest : Interest} {k : Recording}

/-- The rule of a call is in use at its position. -/
theorem active_of_mem (h : k.Faithful tree interest) {i : CallRecord} (hi : i ∈ k.records) :
    interest.rules[i.position]? = some i.subscriber.active :=
  (Interest.mem_subscribersOf.1 (h.subscribed i hi).2).1

/-- If codes differ, then calls under one code are calls at one position. Failures are told apart by
codes and stops by positions, so this is needed wherever the two meet. -/
theorem position_eq_iff (h : k.Faithful tree interest)
    (hcodes : (interest.rules.map (·.rule.descriptor.code)).Nodup) {i j : CallRecord}
    (hi : i ∈ k.records) (hj : j ∈ k.records) :
    i.position = j.position ↔ i.descriptor.code = j.descriptor.code :=
  Interest.position_eq_iff_code_eq hcodes (h.active_of_mem hj) (h.subscribed i hi).2

/-- A finding of a call stands under the code of its rule, and it is no failure. -/
theorem of_mem_findings (h : k.Faithful tree interest) {i : CallRecord} (hi : i ∈ k.records)
    {d : Diagnostic} (hd : d ∈ i.findings) : d.kind = .finding ∧ d.code = i.descriptor.code := by
  obtain ⟨finding, rfl⟩ := h.own i hi d hd
  exact ⟨rfl, rfl⟩

/-- Every rule fails once at most: a rule is not called again behind the call that failed, so that
two failures under one code would be failures of one call. -/
theorem nodup_codes (h : k.Faithful tree interest)
    (hcodes : (interest.rules.map (·.rule.descriptor.code)).Nodup) :
    ((k.records.filterMap (·.error?)).map (·.code)).Nodup := by
  refine List.pairwise_map.2 (List.pairwise_filterMap.2 ?_)
  refine h.final.imp_of_mem fun {i j} hi hj hfinal d hd e he hcode => ?_
  have hsame : i.descriptor.code = j.descriptor.code := by
    rw [← (CallRecord.of_error? hd).2.1, ← (CallRecord.of_error? he).2.1, hcode]
  have hfailed : i.error?.isSome = true := by
    rw [hd]
    rfl
  exact hfinal hfailed ((h.position_eq_iff hcodes hi hj).2 hsame).symm

/-- A failure that was reported is the failure of a call. A callback cannot report one itself,
because what it reports becomes a finding. -/
theorem mem_reports_internal (h : k.Faithful tree interest) {d : Diagnostic}
    (hkind : d.kind = .internalError) :
    d ∈ k.records.flatMap (·.reports) ↔ d ∈ k.records.filterMap (·.error?) := by
  rw [List.mem_flatMap, List.mem_filterMap]
  refine exists_congr fun i => and_congr_right fun hi => ?_
  rw [CallRecord.reports, List.mem_append, Option.mem_toList]
  refine or_iff_right fun hd => ?_
  rw [(h.of_mem_findings hi hd).1] at hkind
  cases hkind

/-- The report of a failure is the first with its key. A report with the same key would be a failure
under the same code, and there is only one of these. -/
theorem find?_internal_iff (h : k.Faithful tree interest)
    (hcodes : (interest.rules.map (·.rule.descriptor.code)).Nodup) {d : Diagnostic}
    (hkind : d.kind = .internalError) :
    (k.records.flatMap (·.reports)).find? (·.key = d.key) = some d ↔
      d ∈ k.records.filterMap (·.error?) := by
  constructor
  · intro hfirst
    exact (h.mem_reports_internal hkind).1 (List.mem_of_find?_eq_some hfirst)
  · intro hd
    obtain ⟨c, hc⟩ : ∃ c, (k.records.flatMap (·.reports)).find? (·.key = d.key) = some c := by
      rw [← Option.isSome_iff_exists, List.find?_isSome]
      exact ⟨d, (h.mem_reports_internal hkind).2 hd, by simp⟩
    have hkey : c.key = d.key := by simpa using List.find?_some hc
    -- The key has the kind and the code in it.
    have hckind : c.kind = .internalError := (congrArg (·.1) hkey).trans hkind
    have hcode : c.code = d.code := congrArg (·.2.1) hkey
    have hcmem := (h.mem_reports_internal hckind).1 (List.mem_of_find?_eq_some hc)
    rw [hc, List.inj_on_of_nodup_map (h.nodup_codes hcodes) hcmem hd hcode]

/-- Behind the call that failed, the rule is not called. -/
theorem not_called_later (h : k.Faithful tree interest) {before after : List CallRecord}
    {i : CallRecord} (hsplit : k.records = before ++ i :: after)
    (hfailed : i.error?.isSome = true) : ∀ j ∈ after, j.position ≠ i.position := by
  have hfinal := h.final
  rw [hsplit, List.pairwise_append, List.pairwise_cons] at hfinal
  exact fun j hj => hfinal.2.1.1 j hj hfailed

/-- What one call contributes to the findings under the code of a rule: all of its findings if it is
a call of that rule, and nothing otherwise. Its failure, if it has one, is no finding. -/
theorem filter_reports_call (h : k.Faithful tree interest)
    (hcodes : (interest.rules.map (·.rule.descriptor.code)).Nodup) {i j : CallRecord}
    (hi : i ∈ k.records) (hj : j ∈ k.records) :
    j.reports.filter (fun d => d.kind = .finding ∧ d.code = i.descriptor.code) =
      if j.position = i.position then j.findings else [] := by
  have herror : j.error?.toList.filter
      (fun d => d.kind = .finding ∧ d.code = i.descriptor.code) = [] := by
    refine List.filter_eq_nil_iff.2 fun d hd => ?_
    simp [(CallRecord.of_error? (Option.mem_toList.1 hd)).1]
  rw [CallRecord.reports, List.filter_append, herror, List.append_nil]
  split
  · rename_i hposition
    refine List.filter_eq_self.2 fun d hd => ?_
    obtain ⟨hkind, hcode⟩ := h.of_mem_findings hj hd
    simp [hkind, hcode, (h.position_eq_iff hcodes hj hi).1 hposition]
  · -- Another rule has another code.
    rename_i hposition
    refine List.filter_eq_nil_iff.2 fun d hd => ?_
    obtain ⟨-, hcode⟩ := h.of_mem_findings hj hd
    simp [hcode, mt (h.position_eq_iff hcodes hj hi).2 hposition]

/-- The findings under the code of a rule that failed are those of its calls up to the failure.
There are no calls behind it that could add to them. -/
theorem filter_reports (h : k.Faithful tree interest)
    (hcodes : (interest.rules.map (·.rule.descriptor.code)).Nodup)
    {before after : List CallRecord} {i : CallRecord} (hsplit : k.records = before ++ i :: after)
    (hfailed : i.error?.isSome = true) :
    (k.records.flatMap (·.reports)).filter
        (fun d => d.kind = .finding ∧ d.code = i.descriptor.code) =
      CallRecord.findingsAt i.position (before ++ [i]) := by
  have hi : i ∈ k.records := by simp [hsplit]
  -- A call reports under the code of its own rule, and no two rules have the same one.
  have hcall : ∀ j ∈ k.records, _ := fun j hj => h.filter_reports_call hcodes hi hj
  have hafter : after.filter (·.position = i.position) = [] :=
    List.filter_eq_nil_iff.2 fun j hj => by simpa using h.not_called_later hsplit hfailed j hj
  calc (k.records.flatMap (·.reports)).filter
        (fun d => d.kind = .finding ∧ d.code = i.descriptor.code)
      = k.records.flatMap fun j => j.reports.filter
          (fun d => d.kind = .finding ∧ d.code = i.descriptor.code) := List.filter_flatMap
    _ = k.records.flatMap fun j => if j.position = i.position then j.findings else [] := by
        rw [List.flatMap_def, List.flatMap_def, List.map_congr_left hcall]
    _ = CallRecord.findingsAt i.position k.records := (CallRecord.findingsAt_eq _ _).symm
    -- Behind the failure the rule is not called any more.
    _ = CallRecord.findingsAt i.position (before ++ [i]) := by
        rw [hsplit, CallRecord.findingsAt, CallRecord.findingsAt, List.filter_append,
          List.filter_append, List.filter_cons, List.filter_cons, hafter]
        rfl

end Recording.Faithful

/-! ### The report -/

/-- The report tells of every failure of the walk, and of nothing that came after it. -/
structure FileReport.AccountsFor (file : SourceFile) (tree : SyntaxTree) (interest : Interest)
    (report : FileReport) : Prop where
  /-- The records are those of the calls made. -/
  records : (walk file tree interest).calls = (callRecords file tree interest).map (·.call)
  /-- Failures are counted, -/
  count : (report.diagnostics.filter Diagnostic.isInternal).length = report.stats.failedRules
  /-- and no rule fails twice. -/
  codes : ((report.diagnostics.filter Diagnostic.isInternal).map (·.code)).Nodup
  /-- A failure is an error at a node of a kind that its rule subscribed to. -/
  places : ∀ d ∈ report.diagnostics, d.isInternal = true → d.severity = .error ∧
    ∃ active ∈ interest.rules, active.rule.descriptor.code = d.code ∧
      ∃ (id : NodeId) (node : SyntaxNode), tree.node? id = some node ∧ node.range = d.range ∧
        ∃ subscription ∈ active.rule.subscriptions, subscription.kind = node.kind
  /-- No directive, in this file or elsewhere, takes one away. -/
  unsuppressed : ∀ suppressions : Suppressions,
    ((walk file tree interest).reporter.finalize file suppressions).filter Diagnostic.isInternal =
      report.diagnostics.filter Diagnostic.isInternal
  /-- The failures in the report are those of the calls. -/
  failures : ∀ d, d ∈ report.diagnostics.filter Diagnostic.isInternal ↔
    ∃ i ∈ callRecords file tree interest, ∃ c, i.error? = some c ∧ d = c.located file
  /-- The call that failed is the last one of its rule, and the findings of the rule in the report
  are those reported up to the end of this call, the first for each range, unless a directive allows
  them. -/
  findings : ∀ (before after : List CallRecord) (i : CallRecord),
    callRecords file tree interest = before ++ i :: after → i.error?.isSome = true →
      (∀ j ∈ after, j.position ≠ i.position) ∧
      ∀ d, (d ∈ report.diagnostics ∧ d.kind = .finding ∧ d.code = i.descriptor.code) ↔
        ∃ c, (CallRecord.findingsAt i.position (before ++ [i])).find? (·.key = c.key) = some c ∧
          ¬ Reporter.Omits file (Suppressions.parse file.content) c ∧ d = c.located file

section
variable {file : SourceFile} {tree : SyntaxTree} {interest : Interest}

/-- The records of a walk tell what the walk did. All that follows about calls rests on this. -/
theorem callRecords_faithful :
    Recording.Faithful tree interest ⟨walk file tree interest, callRecords file tree interest⟩ := by
  rw [← recorded_walk]
  exact Recording.faithful_recorded file tree interest

/-- What the final report of a walk holds, in terms of the calls: the first report with each key,
unless it is left out because of a directive. -/
theorem mem_finalize_walk_iff {suppressions : Suppressions} {d : Diagnostic} :
    d ∈ (walk file tree interest).reporter.finalize file suppressions ↔
      ∃ c, ((callRecords file tree interest).flatMap (·.reports)).find? (·.key = c.key) = some c ∧
        ¬ Reporter.Omits file suppressions c ∧ d = c.located file := by
  have hreporter : (walk file tree interest).reporter = _ := callRecords_faithful.reporter
  rw [hreporter]
  simp only [Reporter.mem_finalize_iff, Reporter.mem_ofCalls]

variable (hcodes : (interest.rules.map (·.rule.descriptor.code)).Nodup)
include hcodes

/-- The failures in a final report are those of the calls, whatever is suppressed. Directives apply
to findings only. -/
theorem mem_internal_iff {suppressions : Suppressions} {d : Diagnostic} :
    d ∈ ((walk file tree interest).reporter.finalize file suppressions).filter
        Diagnostic.isInternal ↔
      ∃ c ∈ (callRecords file tree interest).filterMap (·.error?), d = c.located file := by
  have hkind : ∀ c ∈ (callRecords file tree interest).filterMap (·.error?),
      c.kind = .internalError := by
    intro c hc
    obtain ⟨i, -, herror⟩ := List.mem_filterMap.1 hc
    exact (CallRecord.of_error? herror).1
  rw [List.mem_filter, mem_finalize_walk_iff]
  constructor
  · rintro ⟨⟨c, hfirst, -, rfl⟩, hinternal⟩
    have hc : c.kind = .internalError := of_decide_eq_true hinternal
    exact ⟨c, (callRecords_faithful.find?_internal_iff hcodes hc).1 hfirst, rfl⟩
  · rintro ⟨c, hc, rfl⟩
    have hfirst := (callRecords_faithful.find?_internal_iff hcodes (hkind c hc)).2 hc
    -- A directive would have to allow it, and directives allow findings only.
    refine ⟨⟨c, hfirst, fun homits => ?_, rfl⟩, decide_eq_true (hkind c hc)⟩
    rw [Reporter.Omits, hkind c hc] at homits
    cases homits.1

/-- The failures in a final report are those of the calls, in some order. Neither list has a failure
twice, so that it is enough to compare their members. -/
theorem internal_perm (suppressions : Suppressions) :
    (((walk file tree interest).reporter.finalize file suppressions).filter
      Diagnostic.isInternal).Perm
        (((callRecords file tree interest).filterMap (·.error?)).map (·.located file)) := by
  have hreport : (((walk file tree interest).reporter.finalize file suppressions).filter
      Diagnostic.isInternal).Nodup := by
    have hstrict := deduplicated_walk file tree interest
    refine List.Nodup.filter _ (hstrict.finalize_pairwise.imp fun hlt heq => ?_)
    exact lt_irrefl _ (heq ▸ hlt)
  have hcalls : (((callRecords file tree interest).filterMap (·.error?)).map
      (·.located file)).Nodup := by
    have hnodup : (((callRecords file tree interest).filterMap (·.error?)).map (·.code)).Nodup :=
      callRecords_faithful.nodup_codes hcodes
    refine List.Nodup.of_map (·.code) ?_
    rwa [List.map_map]
  refine (List.perm_ext_iff_of_nodup hreport hcalls).2 fun d => ?_
  rw [mem_internal_iff hcodes, List.mem_map]
  simp only [eq_comm]

/-- The findings in a final report under the code of a rule that failed: those reported up to the
failure, the first for each key. Reports of other rules do not get in the way, because code and kind
are parts of the key. -/
theorem mem_findings_iff {suppressions : Suppressions} {before after : List CallRecord}
    {i : CallRecord} (hsplit : callRecords file tree interest = before ++ i :: after)
    (hfailed : i.error?.isSome = true) {d : Diagnostic} :
    (d ∈ (walk file tree interest).reporter.finalize file suppressions ∧
        d.kind = .finding ∧ d.code = i.descriptor.code) ↔
      ∃ c, (CallRecord.findingsAt i.position (before ++ [i])).find? (·.key = c.key) = some c ∧
        ¬ Reporter.Omits file suppressions c ∧ d = c.located file := by
  have hfilter := (@callRecords_faithful file tree interest).filter_reports hcodes hsplit hfailed
  -- A report with the key of a finding of the rule is a finding of the rule.
  have hfind : ∀ c : Diagnostic, c.kind = .finding → c.code = i.descriptor.code →
      (CallRecord.findingsAt i.position (before ++ [i])).find? (·.key = c.key) =
        ((callRecords file tree interest).flatMap (·.reports)).find? (·.key = c.key) := by
    intro c hkind hcode
    rw [← hfilter, List.find?_filter]
    congr 1
    funext e
    by_cases hkey : e.key = c.key
    · have hekind : e.kind = .finding := (congrArg (·.1) hkey).trans hkind
      have hecode : e.code = i.descriptor.code := (congrArg (·.2.1) hkey).trans hcode
      simp [hkey, hekind, hecode]
    · simp [hkey]
  rw [mem_finalize_walk_iff]
  constructor
  · rintro ⟨⟨c, hfirst, homits, rfl⟩, hkind, hcode⟩
    exact ⟨c, (hfind c hkind hcode).trans hfirst, homits, rfl⟩
  · rintro ⟨c, hfirst, homits, rfl⟩
    have hmem := List.mem_of_find?_eq_some hfirst
    rw [← hfilter, List.mem_filter] at hmem
    obtain ⟨hkind, hcode⟩ := of_decide_eq_true hmem.2
    exact ⟨⟨c, (hfind c hkind hcode).symm.trans hfirst, homits, rfl⟩, hkind, hcode⟩

end

/-- Every analysis accounts for the failures of the rules. Each rule that failed has one diagnostic
for it, an error at the node where it failed, that no directive takes away. The findings that the
rule reported before are in the report, also those of the call that failed, and there are no later
ones. -/
theorem analyze_accounts_for_failures {rules : List Rule} {catalog : Catalog} (config : Config)
    {file : SourceFile} {tree : SyntaxTree} (hcatalog : Catalog.build rules = .ok catalog)
    (hvalid : tree.validate (Text.byteLength file.content.toList) = .ok ()) :
    ∃ report, Engine.analyze ⟨catalog, config⟩ file tree = .ok report ∧
      report.AccountsFor file tree (Interest.build catalog config file.category) := by
  obtain ⟨-, hdistinct, rfl⟩ := Catalog.build_eq_ok_iff.1 hcatalog
  obtain ⟨report, hreport⟩ := Engine.analyzed_of_valid ⟨⟨rules⟩, config⟩ hvalid
  have hcodes := Interest.nodup_codes_build hdistinct config file.category
  have hdiagnostics : report.diagnostics = (walk file tree
      (Interest.build ⟨rules⟩ config file.category)).reporter.finalize file
        (Suppressions.parse file.content) := by
    rw [hreport.diagnostics, Engine.interest_eq]
  have hfailed : report.stats.failedRules = (walk file tree
      (Interest.build ⟨rules⟩ config file.category)).failedRules := by
    rw [hreport.failedRules, Engine.interest_eq]
  refine ⟨report, hreport.ok, ?_⟩
  -- From here on only the walk matters, and no longer which rules are in use.
  generalize Interest.build ⟨rules⟩ config file.category = interest at *
  have hfaithful := @callRecords_faithful file tree interest
  have hperm := @internal_perm file tree interest hcodes (Suppressions.parse file.content)
  constructor
  case records => exact hfaithful.calls
  case count =>
    rw [hdiagnostics, hperm.length_eq, List.length_map, hfailed]
    exact hfaithful.failures.symm
  case codes =>
    rw [hdiagnostics, (hperm.map (·.code)).nodup_iff, List.map_map]
    exact hfaithful.nodup_codes hcodes
  case places =>
    intro d hd hinternal
    rw [hdiagnostics] at hd
    obtain ⟨c, hc, rfl⟩ := (mem_internal_iff hcodes).1 (List.mem_filter.2 ⟨hd, hinternal⟩)
    obtain ⟨i, hi, herror⟩ := List.mem_filterMap.1 hc
    obtain ⟨-, hcode, hseverity, hrange⟩ := CallRecord.of_error? herror
    obtain ⟨hnode, hsubscriber⟩ := hfaithful.subscribed i hi
    obtain ⟨hrule, hsubscription, hkind⟩ := Interest.mem_subscribersOf.1 hsubscriber
    exact ⟨hseverity, i.subscriber.active, List.mem_of_getElem? hrule, hcode.symm, i.id, i.node,
      hnode, hrange.symm, i.subscriber.subscription, hsubscription, hkind⟩
  case unsuppressed =>
    intro suppressions
    rw [hdiagnostics]
    have hstrict := deduplicated_walk file tree interest
    refine Reporter.eq_of_rank_pairwise (hstrict.finalize_pairwise.filter _)
      (hstrict.finalize_pairwise.filter _) fun d => ?_
    rw [mem_internal_iff hcodes, mem_internal_iff hcodes]
  case failures =>
    intro d
    rw [hdiagnostics, mem_internal_iff hcodes]
    simp only [List.mem_filterMap]
    constructor
    · rintro ⟨c, ⟨i, hi, herror⟩, rfl⟩
      exact ⟨i, hi, c, herror, rfl⟩
    · rintro ⟨i, hi, c, herror, rfl⟩
      exact ⟨c, ⟨i, hi, herror⟩, rfl⟩
  case findings =>
    intro before after i hsplit hfailedCall
    refine ⟨hfaithful.not_called_later hsplit hfailedCall, fun d => ?_⟩
    rw [hdiagnostics]
    exact mem_findings_iff hcodes hsplit hfailedCall

/-- A rule that fails at its first call, and a rule that reports and then fails at the same node and
range as its finding. -/
theorem analyze_accounts_for_failures_nested :
    Catalog.build [failingRule, recheckingRule] = .ok ⟨[failingRule, recheckingRule]⟩ ∧
      nestedFunctions.validate (Text.byteLength emptyFile.content.toList) = .ok () ∧
      (walk emptyFile nestedFunctions
        (Interest.build ⟨[failingRule, recheckingRule]⟩ {} .source)).failedRules = 2 ∧
      ∃ report, Engine.analyze ⟨⟨[failingRule, recheckingRule]⟩, {}⟩ emptyFile nestedFunctions =
          .ok report ∧
        report.AccountsFor emptyFile nestedFunctions
          (Interest.build ⟨[failingRule, recheckingRule]⟩ {} .source) := by
  have hcatalog : Catalog.build [failingRule, recheckingRule] =
      .ok ⟨[failingRule, recheckingRule]⟩ := by rfl
  have hvalid : nestedFunctions.validate (Text.byteLength emptyFile.content.toList) = .ok () := by
    rfl
  exact ⟨hcatalog, hvalid, by decide, analyze_accounts_for_failures {} hcatalog hvalid⟩

end Arborist
