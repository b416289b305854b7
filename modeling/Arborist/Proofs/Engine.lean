import Arborist.Engine
import Arborist.Proofs.Walk.Independence
import Arborist.Proofs.Walk.Refinement

/-!
# `Arborist.Proofs.Engine`: the report of a catalog and the reports of its rules

An engine reports on a file what its walk collects (`Engine.analyzed_of_valid`); with no rule in use
the walk is left out, which makes no difference to diagnostics, calls and failures. The rules that
an engine uses are those that it would use with each rule alone. So the report of a catalog splits
into the reports of its rules: `analyze_splits_by_rule` says so for diagnostics and for counts.
-/

set_option autoImplicit false

namespace Arborist

/-! ### What an analysis reports -/

/-- Without rules, nothing happens in a walk: nobody subscribes to a node, so that no step changes
anything but the count of nodes. -/
theorem walk_of_rules_eq_nil {interest : Interest} (h : interest.rules = []) (file : SourceFile)
    (tree : SyntaxTree) :
    (walk file tree interest).reporter = {} ∧ (walk file tree interest).calls = [] ∧
      (walk file tree interest).failedRules = 0 := by
  refine @walk_invariant file tree interest
    (fun w => w.reporter = {} ∧ w.calls = [] ∧ w.failedRules = 0) ⟨rfl, rfl, rfl⟩
    (fun w hw => hw) fun w id node _ s hs _ => ?_
  have hlt := Interest.position_lt_of_mem hs
  rw [h] at hlt
  exact absurd hlt (Nat.not_lt_zero _)

/-- The analysis of a file ends in this report, which is that of the walk. -/
structure Engine.Analyzed (e : Engine) (file : SourceFile) (tree : SyntaxTree)
    (report : FileReport) : Prop where
  ok : e.analyze file tree = .ok report
  diagnostics : report.diagnostics =
    (walk file tree (e.interest file.category)).reporter.finalize file
      (Suppressions.parse file.content)
  invocations : report.stats.invocations =
    (walk file tree (e.interest file.category)).calls.length
  failedRules : report.stats.failedRules =
    (walk file tree (e.interest file.category)).failedRules

/-- A file with a valid tree is analyzed. If no rule is in use the tree is not walked over, and the
nodes are not counted then; in all other respects the report is that of a walk without calls. -/
theorem Engine.analyzed_of_valid (e : Engine) {file : SourceFile} {tree : SyntaxTree}
    (hvalid : tree.validate (Text.byteLength file.content.toList) = .ok ()) :
    ∃ report, e.Analyzed file tree report := by
  by_cases hempty : (e.interest file.category).isEmpty = true
  · -- The tree is not walked over. A walk would have made no call, so it is described all the same.
    have hrules : (e.interest file.category).rules = [] := List.isEmpty_iff.1 hempty
    obtain ⟨hreporter, hcalls, hfailed⟩ := walk_of_rules_eq_nil hrules file tree
    refine ⟨⟨file.path, file.category,
      Reporter.finalize {} file (Suppressions.parse file.content), {}, none⟩, ?_, ?_, ?_, ?_⟩
    · rw [analyze, hvalid]
      simp only [walk?, if_pos hempty]
    · rw [hreporter]
    · rw [hcalls]
      rfl
    · rw [hfailed]
  · refine ⟨⟨file.path, file.category,
      (walk file tree (e.interest file.category)).reporter.finalize file
        (Suppressions.parse file.content),
      (walk file tree (e.interest file.category)).stats, none⟩, ?_, rfl, rfl, rfl⟩
    rw [analyze, hvalid]
    simp only [walk?, if_neg hempty]

/-! ### Rules in use -/

namespace Interest

variable {config : Config} {category : FileCategory}

/-- Whether a rule is used does not depend on the other rules, so the rules in use are those of the
first rule alone and then those of the rest. -/
theorem build_cons (rule : Rule) (rules : List Rule) :
    (build ⟨rule :: rules⟩ config category).rules =
      (build ⟨[rule]⟩ config category).rules ++ (build ⟨rules⟩ config category).rules := by
  unfold build
  simp only [List.filter_cons, List.filter_nil]
  split <;> rfl

/-- A rule alone is in use or not. If it is, it runs with the severity that the configuration has
for it. -/
theorem build_singleton (rule : Rule) :
    build ⟨[rule]⟩ config category = ⟨category, []⟩ ∨
      build ⟨[rule]⟩ config category =
        alone category ⟨rule, config.severityOf rule.descriptor⟩ := by
  unfold build
  simp only [List.filter_cons, List.filter_nil]
  split
  · exact .inr rfl
  · exact .inl rfl

/-- A rule is in use in a catalog exactly if it is in use when it is the only rule of the
catalog. -/
theorem mem_rules_build_iff {rules : List Rule} {active : ActiveRule} :
    active ∈ (build ⟨rules⟩ config category).rules ↔
      ∃ rule ∈ rules, active ∈ (build ⟨[rule]⟩ config category).rules := by
  induction rules with
  | nil => simp [build]
  | cons rule rules ih =>
      rw [build_cons, List.mem_append, ih]
      simp only [List.mem_cons, exists_eq_or_imp]

/-- To add up over the rules in use is to add up over all rules, each alone, as long as a walk
without rules adds nothing. -/
theorem sum_build {f : Interest → Nat} (hf : f ⟨category, []⟩ = 0) (rules : List Rule) :
    ((build ⟨rules⟩ config category).rules.map fun active => f (alone category active)).sum =
      (rules.map fun rule => f (build ⟨[rule]⟩ config category)).sum := by
  induction rules with
  | nil => rfl
  | cons rule rules ih =>
      rw [build_cons, List.map_append, List.sum_append, ih, List.map_cons, List.sum_cons]
      congr 1
      rcases build_singleton rule with hout | hin
      · rw [hout, hf]
        rfl
      · rw [hin]
        simp [alone]

end Interest

/-- A catalog has one rule for a code. -/
theorem Rule.eq_of_code_eq {rules : List Rule} (hdistinct : rules.Pairwise Rule.Distinct)
    {a b : Rule} (ha : a ∈ rules) (hb : b ∈ rules)
    (hcode : a.descriptor.code = b.descriptor.code) : a = b := by
  have hcodes : (rules.map (·.descriptor.code)).Nodup :=
    List.pairwise_map.2 (hdistinct.imp fun h => h.1)
  exact List.inj_on_of_nodup_map hcodes ha hb hcode

/-- What a walk reports under the code of a rule is what the rule reports alone. If the rule is not
in use, then nothing stands under its code; otherwise the walk of the catalog, as the rule sees it,
is the walk of the rule. -/
theorem only_reporter_walk_build {rules : List Rule} (hdistinct : rules.Pairwise Rule.Distinct)
    {rule : Rule} (hrule : rule ∈ rules) (config : Config) (category : FileCategory)
    (file : SourceFile) (tree : SyntaxTree) :
    (walk file tree (Interest.build ⟨rules⟩ config category)).reporter.only
        rule.descriptor.code =
      (walk file tree (Interest.build ⟨[rule]⟩ config category)).reporter := by
  rcases @Interest.build_singleton config category rule with hout | hin
  · rw [hout, (@walk_of_rules_eq_nil ⟨category, []⟩ rfl file tree).1]
    refine only_reporter_walk (fun active hactive hcode => ?_) file tree
    -- A rule in use with this code would be this rule, which is not in use.
    obtain ⟨other, hother, hmem⟩ := Interest.mem_rules_build_iff.1 hactive
    have hactiveRule : active.rule = other :=
      List.mem_singleton.1 (Interest.mem_rules_of_mem_build hmem)
    obtain rfl : other = rule :=
      Rule.eq_of_code_eq hdistinct hother hrule (hactiveRule ▸ hcode)
    rw [hout] at hmem
    cases hmem
  · have hmem : ⟨rule, config.severityOf rule.descriptor⟩ ∈
        (Interest.build ⟨rules⟩ config category).rules := by
      refine Interest.mem_rules_build_iff.2 ⟨rule, hrule, ?_⟩
      rw [hin]
      exact List.mem_singleton_self _
    obtain ⟨position, hposition⟩ := List.mem_iff_getElem?.1 hmem
    have hcodes := Interest.nodup_codes_build hdistinct config category
    rw [hin]
    exact (ruleView_walk hcodes hposition file tree category).reporter.symm

/-- The diagnostics of a catalog under the code of one of its rules are those of the rule alone.
Finalizing keeps this: it drops and sorts diagnostics without a look at those of other rules. -/
theorem Engine.Analyzed.filter_diagnostics {rules : List Rule} {config : Config}
    {file : SourceFile} {tree : SyntaxTree} {rule : Rule} {joint solo : FileReport}
    (hjoint : Engine.Analyzed ⟨⟨rules⟩, config⟩ file tree joint)
    (hsolo : Engine.Analyzed ⟨⟨[rule]⟩, config⟩ file tree solo)
    (hdistinct : rules.Pairwise Rule.Distinct) (hrule : rule ∈ rules) :
    joint.diagnostics.filter (·.code = rule.descriptor.code) = solo.diagnostics := by
  rw [hjoint.diagnostics, hsolo.diagnostics, ← Reporter.finalize_only]
  congr 1
  rw [interest_eq, interest_eq]
  exact only_reporter_walk_build hdistinct hrule config file.category file tree

/-- The report of a catalog splits by rule. Under the code of a rule stand the diagnostics that the
rule alone would give, in the same order, and calls and failures add up. So the diagnostics of a
rule are the same in every other catalog with the rule, whatever the other rules do there. -/
theorem analyze_splits_by_rule {rules : List Rule} {catalog : Catalog} (config : Config)
    {file : SourceFile} {tree : SyntaxTree} (hcatalog : Catalog.build rules = .ok catalog)
    (hvalid : tree.validate (Text.byteLength file.content.toList) = .ok ()) :
    ∃ (joint : FileReport) (solo : Rule → FileReport),
      Engine.analyze ⟨catalog, config⟩ file tree = .ok joint ∧
      (∀ rule ∈ rules, Catalog.build [rule] = .ok ⟨[rule]⟩ ∧
        Engine.analyze ⟨⟨[rule]⟩, config⟩ file tree = .ok (solo rule) ∧
        joint.diagnostics.filter (·.code = rule.descriptor.code) = (solo rule).diagnostics) ∧
      joint.stats.invocations = (rules.map fun rule => (solo rule).stats.invocations).sum ∧
      joint.stats.failedRules = (rules.map fun rule => (solo rule).stats.failedRules).sum ∧
      ∀ (rules' : List Rule) (catalog' : Catalog), Catalog.build rules' = .ok catalog' →
        ∃ joint', Engine.analyze ⟨catalog', config⟩ file tree = .ok joint' ∧
          ∀ rule ∈ rules, rule ∈ rules' →
            joint'.diagnostics.filter (·.code = rule.descriptor.code) =
              joint.diagnostics.filter (·.code = rule.descriptor.code) := by
  obtain ⟨hsound, hdistinct, rfl⟩ := Catalog.build_eq_ok_iff.1 hcatalog
  obtain ⟨joint, hjoint⟩ := Engine.analyzed_of_valid ⟨⟨rules⟩, config⟩ hvalid
  -- The report of each rule alone, for rules of the catalog and for all others.
  choose solo hsolo using fun rule : Rule =>
    Engine.analyzed_of_valid ⟨⟨[rule]⟩, config⟩ hvalid
  have hcodes := Interest.nodup_codes_build hdistinct config file.category
  obtain ⟨-, hcalls, hfailed⟩ := @walk_of_rules_eq_nil ⟨file.category, []⟩ rfl file tree
  refine ⟨joint, solo, hjoint.ok, fun rule hrule => ⟨?_, (hsolo rule).ok, ?_⟩, ?_, ?_, ?_⟩
  · exact Catalog.build_eq_ok_iff.2 ⟨by simpa using hsound rule hrule, by simp, rfl⟩
  · exact hjoint.filter_diagnostics (hsolo rule) hdistinct hrule
  · rw [hjoint.invocations]
    simp only [(hsolo _).invocations, Engine.interest_eq]
    exact (calls_walk_sum hcodes file tree file.category).trans
      (@Interest.sum_build config file.category (fun i => (walk file tree i).calls.length)
        (by rw [hcalls]; rfl) rules)
  · rw [hjoint.failedRules]
    simp only [(hsolo _).failedRules, Engine.interest_eq]
    exact (failedRules_walk_sum hcodes file tree file.category).trans
      (@Interest.sum_build config file.category (fun i => (walk file tree i).failedRules)
        hfailed rules)
  · intro rules' catalog' hcatalog'
    obtain ⟨-, hdistinct', rfl⟩ := Catalog.build_eq_ok_iff.1 hcatalog'
    obtain ⟨joint', hjoint'⟩ := Engine.analyzed_of_valid ⟨⟨rules'⟩, config⟩ hvalid
    refine ⟨joint', hjoint'.ok, fun rule hrule hrule' => ?_⟩
    rw [hjoint'.filter_diagnostics (hsolo rule) hdistinct' hrule',
      hjoint.filter_diagnostics (hsolo rule) hdistinct hrule]

/-- Reports every function and fails where the report is not new. -/
def recheckingRule : Rule where
  descriptor := { code := "R1", name := "rechecking", message := "checked" }
  subscriptions := [⟨.function, "first", fun scene =>
    .report ⟨scene.node.range, "checked", none⟩ fun isNew =>
      if isNew then .finish .proceed else .fail (.error "checked before")⟩]

/-- A rule that fails at the outer function, and a rule that fails at the inner one because of its
own report for the outer one. Neither of them has an influence on the other. -/
theorem analyze_splits_by_rule_nested :
    Catalog.build [failingRule, recheckingRule] = .ok ⟨[failingRule, recheckingRule]⟩ ∧
      nestedFunctions.validate (Text.byteLength emptyFile.content.toList) = .ok () ∧
      ∃ (joint : FileReport) (solo : Rule → FileReport),
        Engine.analyze ⟨⟨[failingRule, recheckingRule]⟩, {}⟩ emptyFile nestedFunctions =
          .ok joint ∧
        (∀ rule ∈ [failingRule, recheckingRule],
          Engine.analyze ⟨⟨[rule]⟩, {}⟩ emptyFile nestedFunctions = .ok (solo rule) ∧
          joint.diagnostics.filter (·.code = rule.descriptor.code) = (solo rule).diagnostics) ∧
        joint.stats.invocations =
          (solo failingRule).stats.invocations + (solo recheckingRule).stats.invocations ∧
        joint.stats.failedRules =
          (solo failingRule).stats.failedRules + (solo recheckingRule).stats.failedRules := by
  have hcatalog : Catalog.build [failingRule, recheckingRule] =
      .ok ⟨[failingRule, recheckingRule]⟩ := by rfl
  have hvalid : nestedFunctions.validate (Text.byteLength emptyFile.content.toList) = .ok () := by
    rfl
  -- The sums over both rules are written out below.
  obtain ⟨joint, solo, hjoint, hrules, hcalls, hfailed, -⟩ :=
    analyze_splits_by_rule {} hcatalog hvalid
  refine ⟨hcatalog, hvalid, joint, solo, hjoint, fun rule hrule => (hrules rule hrule).2, ?_, ?_⟩
  · simpa using hcalls
  · simpa using hfailed

end Arborist
