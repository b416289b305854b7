import Arborist.Proofs.Engine
import Arborist.Proofs.Fix.Outcome
import Arborist.Proofs.Reporter.Finalize

/-!
# `Arborist.Proofs.Engine.CatalogOrder`: the order of the rules does not matter

In another order, rules have other positions and are called in another order at every node. What is
left of this in a walk is the order of the reports. The reports under each code and the counts stay
as they are (`only_reporter_walk_perm`, `stats_walk_perm`), since each rule sees the walk that it
makes alone. The final report sorts by rank, and a walk never holds two diagnostics of one rank
(`deduplicated_walk`), so that the order of the reports is lost as well (`finalize_walk_perm`).

Fixes are asked of the first rule that answers to a code. If no name of a rule is the code of
another one, then at most one rule answers (`Catalog.get?_perm`).
-/

set_option autoImplicit false

namespace Arborist

/-! ### What a walk holds -/

/-- A reaction keeps the reports apart, whatever it reports and however it goes on. The induction is
over the reaction, with one report at each step. -/
theorem Reaction.deduplicated_run {r : Reporter} (h : r.Deduplicated) (active : ActiveRule)
    (reaction : Reaction) : (reaction.run active r).1.Deduplicated := by
  induction reaction generalizing r with
  | finish visit => exact h
  | fail failure => exact h
  | report finding next ih =>
      rw [run_report]
      exact ih _ (h.report _)

/-- A call keeps the reports apart, also if it fails: the failure is one more report behind those of
the reaction. -/
theorem Subscriber.deduplicated_react {r : Reporter} (h : r.Deduplicated) (file : SourceFile)
    (tree : SyntaxTree) (id : NodeId) (node : SyntaxNode) (s : Subscriber) :
    (s.react file tree id node r).1.Deduplicated := by
  have hrun := Reaction.deduplicated_run h s.active
    (s.subscription.callback ⟨file, tree, id, node, s.active.severity⟩)
  unfold react
  generalize (s.subscription.callback _).run s.active r = result at hrun ⊢
  obtain ⟨reporter, outcome⟩ := result
  cases outcome with
  | ok visit => exact hrun
  | error failure => exact hrun.report _

/-- A walk holds no key twice. It starts with an empty reporter, and every call keeps the reports
apart. -/
theorem deduplicated_walk (file : SourceFile) (tree : SyntaxTree) (interest : Interest) :
    (walk file tree interest).reporter.Deduplicated := by
  refine @walk_invariant file tree interest (·.reporter.Deduplicated) List.nodup_nil
    (fun w hw => hw) fun w id node hw s _ _ => ?_
  rw [WalkState.reporter_call]
  exact Subscriber.deduplicated_react hw file tree id node s

/-- Calls count no node, whether they are made or left out. Only a visit does, once, before its
calls. -/
theorem WalkState.nodes_turns (file : SourceFile) (tree : SyntaxTree) (id : NodeId)
    (node : SyntaxNode) (subscribers : List Subscriber) (w : WalkState) :
    (subscribers.foldl (turn file tree id node) w).nodes = w.nodes := by
  induction subscribers generalizing w with
  | nil => rfl
  | cons s subscribers ih =>
      rw [List.foldl_cons, ih, turn]
      split
      · rw [call_eq]
      · rfl

/-- A walk counts every node once, whatever the rules are. The induction is over the nodes that are
left, from any count on. -/
theorem nodes_walk (file : SourceFile) (tree : SyntaxTree) (interest : Interest) :
    (walk file tree interest).nodes = tree.enumerated.length := by
  have hvisits : ∀ (entries : List (NodeId × SyntaxNode)) (w : WalkState),
      (entries.foldl (WalkState.visit file tree interest) w).nodes =
        w.nodes + entries.length := by
    intro entries
    induction entries with
    | nil => intro w; rfl
    | cons entry entries ih =>
        intro w
        obtain ⟨id, node⟩ := entry
        rw [List.foldl_cons, ih, WalkState.visit_eq, WalkState.nodes_turns, List.length_cons]
        simp only
        omega
  rw [walk, hvisits, Nat.zero_add]

/-! ### Rules in another order -/

section
variable {i i' : Interest} (hcodes : (i.rules.map (·.rule.descriptor.code)).Nodup)
  (hperm : i.rules.Perm i'.rules) (file : SourceFile) (tree : SyntaxTree)
include hcodes hperm

/-- The reports under a code do not depend on the order of the rules. At most one rule has the code,
and it sees the same walk at either position. -/
theorem only_reporter_walk_perm (code : String) :
    (walk file tree i).reporter.only code = (walk file tree i').reporter.only code := by
  have hcodes' := ((hperm.map (·.rule.descriptor.code)).nodup_iff).1 hcodes
  by_cases hcode : ∃ active ∈ i.rules, active.rule.descriptor.code = code
  · -- Both walks show the rule with this code the walk that it makes alone.
    obtain ⟨active, hactive, rfl⟩ := hcode
    obtain ⟨position, hposition⟩ := List.mem_iff_getElem?.1 hactive
    obtain ⟨position', hposition'⟩ := List.mem_iff_getElem?.1 (hperm.mem_iff.1 hactive)
    have hview := ruleView_walk hcodes hposition file tree .source
    have hview' := ruleView_walk hcodes' hposition' file tree .source
    exact hview.reporter.symm.trans hview'.reporter
  · have habsent : ∀ active ∈ i.rules, active.rule.descriptor.code ≠ code := fun active hactive h =>
      hcode ⟨active, hactive, h⟩
    rw [only_reporter_walk habsent, only_reporter_walk fun active hactive =>
      habsent active (hperm.mem_iff.2 hactive)]

/-- Nodes, calls and failures are as many in every order of the rules. Calls and failures are sums
over the rules, each walking alone. -/
theorem stats_walk_perm : (walk file tree i).stats = (walk file tree i').stats := by
  have hcodes' := ((hperm.map (·.rule.descriptor.code)).nodup_iff).1 hcodes
  have hcalls : (walk file tree i).calls.length = (walk file tree i').calls.length := by
    rw [calls_walk_sum hcodes file tree .source, calls_walk_sum hcodes' file tree .source]
    exact (hperm.map _).sum_eq
  have hfailed : (walk file tree i).failedRules = (walk file tree i').failedRules := by
    rw [failedRules_walk_sum hcodes file tree .source,
      failedRules_walk_sum hcodes' file tree .source]
    exact (hperm.map _).sum_eq
  rw [WalkState.stats, WalkState.stats, nodes_walk, nodes_walk, hcalls, hfailed]

/-- The final report does not depend on the order of the rules. It is decided by the reports under
each code, because no two diagnostics of a walk have the same rank. -/
theorem finalize_walk_perm (suppressions : Suppressions) :
    (walk file tree i).reporter.finalize file suppressions =
      (walk file tree i').reporter.finalize file suppressions :=
  Reporter.finalize_congr_only (deduplicated_walk file tree i) (deduplicated_walk file tree i')
    (only_reporter_walk_perm hcodes hperm file tree)

end

/-- The rules in use come in the order of the catalog. So those of a reordered catalog are the same
ones, reordered. -/
theorem Interest.build_perm {rules rules' : List Rule} (hperm : rules.Perm rules') (config : Config)
    (category : FileCategory) :
    (build ⟨rules⟩ config category).rules.Perm (build ⟨rules'⟩ config category).rules :=
  (hperm.filter _).map _

/-- An analysis does not depend on the order of the rules. Whether the walk is left out does not
either, since that is a matter of there being rules in use at all. -/
theorem Engine.analyze_perm {rules rules' : List Rule} (hdistinct : rules.Pairwise Rule.Distinct)
    (hperm : rules.Perm rules') (config : Config) (file : SourceFile) (tree : SyntaxTree) :
    Engine.analyze ⟨⟨rules⟩, config⟩ file tree = Engine.analyze ⟨⟨rules'⟩, config⟩ file tree := by
  have hrules := Interest.build_perm hperm config file.category
  have hcodes := Interest.nodup_codes_build hdistinct config file.category
  have hfinal := finalize_walk_perm hcodes hrules file tree
  have hstats := stats_walk_perm hcodes hrules file tree
  rw [analyze, analyze]
  split
  · rfl
  · -- The walk is left out for both orders or for neither.
    have hempty : (Interest.build ⟨rules⟩ config file.category).isEmpty =
        (Interest.build ⟨rules'⟩ config file.category).isEmpty := hrules.isEmpty_eq
    cases hnone : (Interest.build ⟨rules⟩ config file.category).isEmpty with
    | true => simp only [walk?, interest_eq, hnone, hempty.symm.trans hnone, if_true]
    | false =>
        simp only [walk?, interest_eq, hnone, hempty.symm.trans hnone, Bool.false_eq_true, if_false,
          hfinal, hstats]

/-! ### Fixes -/

/-- The rules can be told apart by a code or a name together: no name is the code of another
rule. -/
def Rule.NamesApart (a b : Rule) : Prop :=
  a.descriptor.name ≠ b.descriptor.code ∧ b.descriptor.name ≠ a.descriptor.code

/-- Two rules that stand apart do not answer to the same key. A key is compared with codes and names
alike, hence the four cases. -/
theorem Rule.not_answersTo_both {a b : Rule} (hdistinct : a.Distinct b) (hnames : a.NamesApart b)
    {key : String} (ha : a.descriptor.answersTo key = true)
    (hb : b.descriptor.answersTo key = true) : False := by
  simp only [Descriptor.answersTo, Bool.or_eq_true, decide_eq_true_eq] at ha hb
  rcases ha with rfl | rfl <;> rcases hb with hb | hb
  · exact hdistinct.1 hb.symm
  · exact hnames.2 hb
  · exact hnames.1 hb.symm
  · exact hdistinct.2 hb.symm

/-- At most one rule answers to a key, whatever the order. So the first one that answers is the same
in both. -/
theorem Catalog.get?_perm {rules rules' : List Rule} (hdistinct : rules.Pairwise Rule.Distinct)
    (hnames : rules.Pairwise Rule.NamesApart) (hperm : rules.Perm rules') (key : String) :
    Catalog.get? ⟨rules⟩ key = Catalog.get? ⟨rules'⟩ key := by
  have hpairs : (rules.filter (·.descriptor.answersTo key)).Pairwise fun _ _ => False :=
    ((hdistinct.and hnames).filter _).imp_of_mem fun ha hb hab =>
      Rule.not_answersTo_both hab.1 hab.2 (List.mem_filter.1 ha).2 (List.mem_filter.1 hb).2
  have hfilter := hperm.filter (·.descriptor.answersTo key)
  rw [get?, get?, ← List.head?_filter, ← List.head?_filter]
  change (rules.filter (·.descriptor.answersTo key)).head? = _
  generalize rules.filter (·.descriptor.answersTo key) = found at hpairs hfilter ⊢
  -- Two rules that answer would contradict `hpairs`.
  match found with
  | [] => rw [hfilter.symm.eq_nil]
  | [rule] => rw [List.perm_singleton.1 hfilter.symm]
  | a :: b :: rest => exact ((List.pairwise_cons.1 hpairs).1 b (by simp)).elim

/-- Proposals come in the order of the report, and each is made by the rule that the code of its
diagnostic finds. The order of the catalog is not asked for. -/
theorem Engine.proposals_perm {rules rules' : List Rule} (hdistinct : rules.Pairwise Rule.Distinct)
    (hnames : rules.Pairwise Rule.NamesApart) (hperm : rules.Perm rules') (config : Config)
    (file : SourceFile) (tree : SyntaxTree) (report : FileReport) :
    Engine.proposals ⟨⟨rules⟩, config⟩ file tree report =
      Engine.proposals ⟨⟨rules'⟩, config⟩ file tree report := by
  simp only [proposals, Catalog.get?_perm hdistinct hnames hperm]

/-- The order of a catalog does not matter. The same rules in another order make a catalog as well,
and the analysis of a file with a valid tree ends in the same report. If no name of a rule is the
code of another rule, then fixing ends in the same outcome, for this report and any other. -/
theorem analyze_fix_perm {rules rules' : List Rule} {catalog : Catalog} (config : Config)
    {file : SourceFile} {tree : SyntaxTree} (hcatalog : Catalog.build rules = .ok catalog)
    (hperm : rules.Perm rules')
    (hvalid : tree.validate (Text.byteLength file.content.toList) = .ok ()) :
    ∃ catalog', Catalog.build rules' = .ok catalog' ∧
      (∃ report, Engine.analyze ⟨catalog, config⟩ file tree = .ok report ∧
        Engine.analyze ⟨catalog', config⟩ file tree = .ok report) ∧
      (rules.Pairwise Rule.NamesApart → ∀ (report : FileReport) (allowRisky : Bool),
        ∃ outcome, Engine.fix ⟨catalog, config⟩ file tree report allowRisky = .ok outcome ∧
          Engine.fix ⟨catalog', config⟩ file tree report allowRisky = .ok outcome) := by
  obtain ⟨hsound, hdistinct, rfl⟩ := Catalog.build_eq_ok_iff.1 hcatalog
  -- To be distinct is a property of two rules whichever comes first.
  have hdistinct' : rules'.Pairwise Rule.Distinct :=
    hperm.pairwise hdistinct fun hab => ⟨hab.1.symm, hab.2.symm⟩
  refine ⟨⟨rules'⟩, ?_, ?_, fun hnames report allowRisky => ?_⟩
  · exact Catalog.build_eq_ok_iff.2
      ⟨fun rule hrule => hsound rule (hperm.mem_iff.2 hrule), hdistinct', rfl⟩
  · obtain ⟨report, hreport⟩ := Engine.analyzed_of_valid ⟨⟨rules⟩, config⟩ hvalid
    exact ⟨report, hreport.ok, Engine.analyze_perm hdistinct hperm config file tree ▸ hreport.ok⟩
  · obtain ⟨outcome, houtcome⟩ :=
      Engine.exists_fixes ⟨⟨rules⟩, config⟩ file tree report allowRisky
    refine ⟨outcome, houtcome.ok, ?_⟩
    rw [← houtcome.ok]
    -- The catalog enters into fixing through the proposals alone.
    simp only [Engine.fix, Engine.proposals_perm hdistinct hnames hperm]

/-- Two rules for the same nodes that both fail, called in either order. The analysis and the fix
come to the same. -/
theorem analyze_fix_perm_swapped :
    let rules := [failingRule, recheckingRule]
    let swapped := [recheckingRule, failingRule]
    Catalog.build rules = .ok ⟨rules⟩ ∧ rules.Perm swapped ∧
      nestedFunctions.validate (Text.byteLength emptyFile.content.toList) = .ok () ∧
      rules.Pairwise Rule.NamesApart ∧
      ∃ catalog', Catalog.build swapped = .ok catalog' ∧
        ∃ report, Engine.analyze ⟨⟨rules⟩, {}⟩ emptyFile nestedFunctions = .ok report ∧
          Engine.analyze ⟨catalog', {}⟩ emptyFile nestedFunctions = .ok report ∧
          ∃ outcome, Engine.fix ⟨⟨rules⟩, {}⟩ emptyFile nestedFunctions report true = .ok outcome ∧
            Engine.fix ⟨catalog', {}⟩ emptyFile nestedFunctions report true = .ok outcome := by
  intro rules swapped
  have hcatalog : Catalog.build rules = .ok ⟨rules⟩ := by rfl
  have hperm : rules.Perm swapped := List.Perm.swap _ _ _
  have hvalid : nestedFunctions.validate (Text.byteLength emptyFile.content.toList) = .ok () := by
    rfl
  -- Four texts, and no name is the code of the other rule.
  have hnames : rules.Pairwise Rule.NamesApart := by
    simp [rules, Rule.NamesApart, failingRule, recheckingRule]
  obtain ⟨catalog', hcatalog', ⟨report, hreport, hreport'⟩, hfix⟩ :=
    analyze_fix_perm {} hcatalog hperm hvalid
  obtain ⟨outcome, houtcome⟩ := hfix hnames report true
  exact ⟨hcatalog, hperm, hvalid, hnames, catalog', hcatalog', report, hreport, hreport', outcome,
    houtcome⟩

end Arborist
