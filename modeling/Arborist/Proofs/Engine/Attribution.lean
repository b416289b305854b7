import Arborist.Proofs.Engine.Failures
import Mathlib.Data.List.Pairwise

/-!
# `Arborist.Proofs.Engine.Attribution`: the rules behind a report

A rule is in use for a category of files if it accepts the category and no table of the
configuration switches it off. `Config.TableOf` says which table counts for a rule: the one under
its name, and the one under its code only if there is none under the name. `Rule.InUse` and
`Config.Rates` say with it which rules run and how severe their findings are, and
`Interest.mem_rules_build` says that these are the rules that an engine picks.

A report comes from the calls of a walk, and calls are made for rules in use only. So each
diagnostic carries code and name of a rule in use (`Engine.Analyzed.attributed`), and a rule that is
not in use could as well be missing (`Engine.analyze_erase`). `analyze_uses_rules_in_use` puts both
together.
-/

set_option autoImplicit false

namespace Arborist

/-! ### Tables of rules -/

namespace Config

variable {config : Config} {d : Descriptor}

/-- The table that counts for a rule. -/
inductive TableOf (config : Config) (d : Descriptor) : RuleConfig → Prop where
  | name {table : RuleConfig} (h : config.table? d.name = some table) : TableOf config d table
  | code {table : RuleConfig} (hname : config.table? d.name = none)
      (h : config.table? d.code = some table) : TableOf config d table

/-- No table switches the rule off. -/
def Enables (config : Config) (d : Descriptor) : Prop :=
  ∀ table, config.TableOf d table → table.enabled ≠ some false

/-- The findings of the rule have this severity: that of its table, or its own if the table has
none. -/
def Rates (config : Config) (d : Descriptor) (severity : Severity) : Prop :=
  (∃ table, config.TableOf d table ∧ table.severity = some severity) ∨
    ((∀ table, config.TableOf d table → table.severity = none) ∧ severity = d.severity)

/-- The configuration of a rule is the table that counts for it. A table under its name comes first,
and one under its code counts only if there is none. -/
theorem ruleConfig?_eq_some_iff {table : RuleConfig} :
    config.ruleConfig? d = some table ↔ config.TableOf d table := by
  rw [ruleConfig?]
  cases hname : config.table? d.name with
  -- The table under the name counts, so nothing can be said by way of the code.
  | some other =>
      constructor
      · intro h
        exact .name (hname.trans h)
      · rintro (h | ⟨hnone, -⟩)
        · exact hname.symm.trans h
        · rw [hname] at hnone
          cases hnone
  | none =>
      constructor
      · intro h
        exact .code hname h
      · rintro (h | ⟨-, h⟩)
        · rw [hname] at h
          cases h
        · exact h

/-- The test whether a rule is enabled. A table that says nothing about it leaves the rule on, and
so does the lack of a table. -/
theorem isEnabled_iff : config.isEnabled d = true ↔ config.Enables d := by
  simp only [Enables, ← ruleConfig?_eq_some_iff, isEnabled]
  cases config.ruleConfig? d with
  | none => simp
  | some table => rcases htable : table.enabled with _ | _ | _ <;> simp [htable]

/-- The severity that is computed for a rule is the one that it is rated with. -/
theorem rates_severityOf (config : Config) (d : Descriptor) :
    config.Rates d (config.severityOf d) := by
  simp only [Rates, ← ruleConfig?_eq_some_iff, severityOf]
  cases config.ruleConfig? d with
  | none => simp
  | some table => cases htable : table.severity <;> simp [htable]

end Config

/-- The rule runs on files of the category. -/
def Rule.InUse (config : Config) (category : FileCategory) (rule : Rule) : Prop :=
  rule.descriptor.applicability.accepts category = true ∧ config.Enables rule.descriptor

namespace Interest

variable {config : Config} {category : FileCategory}

/-- The test that picks the rules in use: both of its halves have to agree, and neither looks at
another rule. -/
theorem picks_iff {rule : Rule} :
    (rule.descriptor.applicability.accepts category && config.isEnabled rule.descriptor) = true ↔
      rule.InUse config category := by
  rw [Bool.and_eq_true, Config.isEnabled_iff, Rule.InUse]

/-- The rules that an engine picks are the rules of its catalog that are in use, each with the
severity that the configuration computes for it. -/
theorem mem_rules_build {catalog : Catalog} {active : ActiveRule} :
    active ∈ (build catalog config category).rules ↔
      active.rule ∈ catalog.rules ∧ active.rule.InUse config category ∧
        active.severity = config.severityOf active.rule.descriptor := by
  simp only [build, List.mem_map, List.mem_filter, picks_iff]
  constructor
  · rintro ⟨rule, ⟨hmem, huse⟩, rfl⟩
    exact ⟨hmem, huse, rfl⟩
  · rintro ⟨hmem, huse, hseverity⟩
    exact ⟨active.rule, ⟨hmem, huse⟩, by rw [← hseverity]⟩

/-- A rule that is not in use could as well be missing: it is passed over, and the others keep their
order. -/
theorem build_erase {rule : Rule} (hunused : ¬ rule.InUse config category)
    (before after : List Rule) :
    build ⟨before ++ rule :: after⟩ config category = build ⟨before ++ after⟩ config category := by
  have hskip := mt picks_iff.1 hunused
  simp only [build, List.filter_append, List.filter_cons, if_neg hskip]

end Interest

/-! ### Calls and diagnostics -/

/-- The report of a failure carries the name of the rule. Code, kind and severity of such a report
are in `CallRecord.of_error?`. -/
theorem CallRecord.rule_of_error? {i : CallRecord} {d : Diagnostic} (h : i.error? = some d) :
    d.rule = i.descriptor.name := by
  unfold error? at h
  cases houtcome : i.outcome with
  | ok visit =>
      rw [houtcome] at h
      cases h
  | error failure =>
      rw [houtcome] at h
      obtain rfl := Option.some.inj h
      rfl

/-- The diagnostic is what a rule in use reports: a finding with the severity that the rule has, or
a failure, which is an error. -/
structure Diagnostic.ReportedBy (active : ActiveRule) (d : Diagnostic) : Prop where
  code : d.code = active.rule.descriptor.code
  rule : d.rule = active.rule.descriptor.name
  finding : d.kind = .finding → d.severity = active.severity
  failure : d.kind = .internalError → d.severity = .error

/-- What a call reports is reported by its rule. Findings are completed from the rule by the
reporter, and a failure is reported in the name of the rule, so that a callback has no say in
either. -/
theorem Recording.Faithful.reportedBy {tree : SyntaxTree} {interest : Interest} {k : Recording}
    (h : k.Faithful tree interest) {i : CallRecord} (hi : i ∈ k.records) {d : Diagnostic}
    (hd : d ∈ i.reports) : d.ReportedBy i.subscriber.active := by
  rcases List.mem_append.1 hd with hd | hd
  · obtain ⟨finding, rfl⟩ := h.own i hi d hd
    exact ⟨rfl, rfl, fun _ => rfl, fun hkind => by cases hkind⟩
  · have herror := Option.mem_toList.1 hd
    obtain ⟨hkind, hcode, hseverity, -⟩ := CallRecord.of_error? herror
    refine ⟨hcode, CallRecord.rule_of_error? herror, fun hfinding => ?_, fun _ => hseverity⟩
    rw [hkind] at hfinding
    cases hfinding

namespace Engine

variable {e : Engine} {file : SourceFile} {tree : SyntaxTree} {report : FileReport}

/-- A diagnostic of the report was reported in a call. Finalizing adds no diagnostics; it only fills
in the places. -/
theorem Analyzed.exists_call (h : e.Analyzed file tree report) {d : Diagnostic}
    (hd : d ∈ report.diagnostics) :
    ∃ i ∈ callRecords file tree (e.interest file.category), ∃ c ∈ i.reports,
      d = c.located file := by
  rw [h.diagnostics] at hd
  obtain ⟨c, hfirst, -, rfl⟩ := mem_finalize_walk_iff.1 hd
  obtain ⟨i, hi, hc⟩ := List.mem_flatMap.1 (List.mem_of_find?_eq_some hfirst)
  exact ⟨i, hi, c, hc, rfl⟩

/-- The rule of a call is a rule of the catalog and in use, and it was called with the severity that
the configuration has for it. -/
theorem inUse_of_mem_callRecords {i : CallRecord}
    (hi : i ∈ callRecords file tree (e.interest file.category)) :
    i.subscriber.active.rule ∈ e.catalog.rules ∧
      i.subscriber.active.rule.InUse e.config file.category ∧
      i.subscriber.active.severity = e.config.severityOf i.descriptor := by
  have hactive := List.mem_of_getElem? (callRecords_faithful.active_of_mem hi)
  rw [interest_eq] at hactive
  exact Interest.mem_rules_build.1 hactive

/-- Every diagnostic of a report is attributed to a rule of the catalog that is in use. A finding
has the severity that the rule is rated with, and a failure is an error whatever the configuration
says. -/
theorem Analyzed.attributed (h : e.Analyzed file tree report) {d : Diagnostic}
    (hd : d ∈ report.diagnostics) :
    ∃ rule ∈ e.catalog.rules, rule.InUse e.config file.category ∧
      d.code = rule.descriptor.code ∧ d.rule = rule.descriptor.name ∧
      (d.kind = .finding → e.config.Rates rule.descriptor d.severity) ∧
      (d.kind = .internalError → d.severity = .error) := by
  -- Every diagnostic was reported by some call, and a call is one of a rule in use.
  obtain ⟨i, hi, c, hc, rfl⟩ := h.exists_call hd
  obtain ⟨hmem, huse, hseverity⟩ := inUse_of_mem_callRecords hi
  have hc := callRecords_faithful.reportedBy hi hc
  refine ⟨_, hmem, huse, hc.code, hc.rule, fun hkind => ?_, hc.failure⟩
  have hrated : (c.located file).severity = e.config.severityOf i.descriptor :=
    (hc.finding hkind).trans hseverity
  rw [hrated]
  exact Config.rates_severityOf _ _

/-- An analysis looks at the catalog only for the rules in use. -/
theorem analyze_congr {e' : Engine} (h : e.interest file.category = e'.interest file.category) :
    e.analyze file tree = e'.analyze file tree := by
  simp only [analyze, walk?, h]

/-- Without a rule that is not in use, the analysis is the same, errors included. -/
theorem analyze_erase {config : Config} {rule : Rule}
    (hunused : ¬ rule.InUse config file.category) (before after : List Rule) :
    analyze ⟨⟨before ++ rule :: after⟩, config⟩ file tree =
      analyze ⟨⟨before ++ after⟩, config⟩ file tree := by
  refine analyze_congr ?_
  rw [interest_eq, interest_eq]
  exact Interest.build_erase hunused before after

end Engine

instance : Std.Symm Rule.Distinct := ⟨fun _ _ hab => ⟨hab.1.symm, hab.2.symm⟩⟩

/-- A catalog stays one when a rule is taken out: what is demanded of rules and of pairs of rules
holds for the rest. -/
theorem Catalog.build_erase {before after : List Rule} {rule : Rule} {catalog : Catalog}
    (h : Catalog.build (before ++ rule :: after) = .ok catalog) :
    Catalog.build (before ++ after) = .ok ⟨before ++ after⟩ := by
  obtain ⟨hsound, hdistinct, -⟩ := build_eq_ok_iff.1 h
  have hsub : (before ++ after).Sublist (before ++ rule :: after) :=
    (List.sublist_cons_self rule after).append_left before
  exact build_eq_ok_iff.2
    ⟨fun other hother => hsound other (hsub.subset hother), hdistinct.sublist hsub, rfl⟩

/-! ### The report -/

/-- The report comes from the rules in use, and the other rules have no part in it. -/
structure FileReport.UsesRulesInUse (e : Engine) (file : SourceFile) (tree : SyntaxTree)
    (report : FileReport) : Prop where
  /-- A diagnostic carries code and name of a rule in use. The severity of a finding is the
  configured one or else that of the rule, and a failure is an error. -/
  diagnostics : ∀ d ∈ report.diagnostics, ∃ rule ∈ e.catalog.rules,
    rule.InUse e.config file.category ∧
      d.code = rule.descriptor.code ∧ d.rule = rule.descriptor.name ∧
      (d.kind = .finding → e.config.Rates rule.descriptor d.severity) ∧
      (d.kind = .internalError → d.severity = .error)
  /-- Calls and failures are counted, and each call is one of the rule in use at its position. -/
  invocations : report.stats.invocations =
    (callRecords file tree (e.interest file.category)).length
  failures : report.stats.failedRules =
    ((callRecords file tree (e.interest file.category)).filter (·.error?.isSome)).length
  calls : ∀ i ∈ callRecords file tree (e.interest file.category),
    (e.interest file.category).rules[i.position]? = some i.subscriber.active ∧
      i.subscriber.active.rule ∈ e.catalog.rules ∧
      i.subscriber.active.rule.InUse e.config file.category
  /-- A rule that is not in use can be taken out, or have other callbacks. -/
  erased : ∀ (before after : List Rule) (rule : Rule), e.catalog.rules = before ++ rule :: after →
    ¬ rule.InUse e.config file.category →
      Engine.analyze ⟨⟨before ++ after⟩, e.config⟩ file tree = .ok report ∧
      ∀ rule' : Rule, rule'.descriptor = rule.descriptor →
        Engine.analyze ⟨⟨before ++ rule' :: after⟩, e.config⟩ file tree = .ok report
  /-- In a catalog that was checked, what is left is a catalog, and no diagnostic carries code or
  name of the rule. -/
  absent : ∀ (before after : List Rule) (rule : Rule),
    Catalog.build (before ++ rule :: after) = .ok e.catalog →
      ¬ rule.InUse e.config file.category →
        Catalog.build (before ++ after) = .ok ⟨before ++ after⟩ ∧
        ∀ d ∈ report.diagnostics, d.code ≠ rule.descriptor.code ∧ d.rule ≠ rule.descriptor.name

/-- Every report comes from rules that accept the category of the file and that the configuration
enables. A rule that is disabled or does not apply has no diagnostic, no call and no failure in it,
whatever its callbacks do, and the report is the same without the rule. -/
theorem analyze_uses_rules_in_use (e : Engine) {file : SourceFile} {tree : SyntaxTree}
    (hvalid : tree.validate (Text.byteLength file.content.toList) = .ok ()) :
    ∃ report, e.analyze file tree = .ok report ∧ report.UsesRulesInUse e file tree := by
  obtain ⟨report, hreport⟩ := e.analyzed_of_valid hvalid
  have hfaithful := @callRecords_faithful file tree (e.interest file.category)
  refine ⟨report, hreport.ok, ?_⟩
  constructor
  case diagnostics => exact fun d hd => hreport.attributed hd
  case invocations =>
    rw [hreport.invocations, hfaithful.calls, List.length_map]
  case failures =>
    rw [hreport.failedRules, hfaithful.failures, List.length_filterMap_eq_countP,
      List.countP_eq_length_filter]
  case calls =>
    intro i hi
    obtain ⟨hmem, huse, -⟩ := Engine.inUse_of_mem_callRecords hi
    exact ⟨hfaithful.active_of_mem hi, hmem, huse⟩
  case erased =>
    intro before after rule hrules hunused
    have herased : Engine.analyze ⟨⟨before ++ after⟩, e.config⟩ file tree = .ok report := by
      rw [← Engine.analyze_erase hunused before after, ← hrules]
      exact hreport.ok
    refine ⟨herased, fun rule' hdescriptor => ?_⟩
    rw [Rule.InUse, ← hdescriptor] at hunused
    rw [Engine.analyze_erase hunused before after]
    exact herased
  -- The diagnostic belongs to a rule in use, which is another one, and rules of a catalog differ in
  -- code and name.
  case absent =>
    intro before after rule hcatalog hunused
    refine ⟨Catalog.build_erase hcatalog, fun d hd => ?_⟩
    obtain ⟨-, hdistinct, hrules⟩ := Catalog.build_eq_ok_iff.1 hcatalog
    obtain ⟨other, hother, huse, hcode, hname, -⟩ := hreport.attributed hd
    have hne : other ≠ rule := fun heq => hunused (heq ▸ huse)
    rw [hrules] at hother
    obtain ⟨hcodes, hnames⟩ := hdistinct.forall hother
      (by simp : rule ∈ before ++ rule :: after) hne
    exact ⟨hcode ▸ hcodes, hname ▸ hnames⟩

/-- A configuration with two tables for one rule, which disagree, and a severity under a code. -/
def disagreeingTables : Config where
  rules := [("F1", { enabled := some true }), ("failing", { enabled := some false }),
    ("R1", { severity := some .info })]

/-- The table under the name switches the failing rule off, whatever the one under its code says.
The other rule reports with the severity of its table, and fails. -/
theorem analyze_uses_rules_in_use_disagreeing :
    let e : Engine := ⟨⟨[failingRule, recheckingRule]⟩, disagreeingTables⟩
    nestedFunctions.validate (Text.byteLength emptyFile.content.toList) = .ok () ∧
      ¬ failingRule.InUse disagreeingTables .source ∧
      recheckingRule.InUse disagreeingTables .source ∧
      disagreeingTables.Rates recheckingRule.descriptor .info ∧
      (walk emptyFile nestedFunctions (e.interest .source)).failedRules = 1 ∧
      ∃ report, e.analyze emptyFile nestedFunctions = .ok report ∧
        report.UsesRulesInUse e emptyFile nestedFunctions := by
  intro e
  have hvalid : nestedFunctions.validate (Text.byteLength emptyFile.content.toList) = .ok () := by
    rfl
  refine ⟨hvalid, fun h => h.2 _ (.name rfl) rfl, ⟨rfl, Config.isEnabled_iff.1 (by decide)⟩, ?_,
    by decide, analyze_uses_rules_in_use e hvalid⟩
  exact .inl ⟨_, .code (by decide) rfl, rfl⟩

end Arborist
