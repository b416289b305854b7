import Arborist.Proofs.Engine.Attribution

/-!
# `Arborist.Proofs.Engine.Lookup`: which rule a code finds

A catalog keeps codes apart from codes and names apart from names. It does not keep them apart from
each other, and a key finds the first rule that has it as its code or as its name. So a rule is
found by its code unless a rule before it bears this code as a name (`Catalog.get?_code_iff`), and
then the other rule is found (`Catalog.get?_code_of_name`). It is the same with names
(`Catalog.get?_name_iff`).

The fixes of a finding are asked of the rule that its code finds. `fix_asks_rule_found` compares
this rule with the one that reported the finding, and `fix_asks_other_rule` shows a catalog in which
they differ.
-/

set_option autoImplicit false

namespace Arborist

/-! ### Keys -/

namespace Rule

variable {a b : Rule}

/-- A rule answers to the code of another one if it bears it as a name, since its own code is a
different one. -/
theorem answersTo_code_iff (h : a.Distinct b) :
    a.descriptor.answersTo b.descriptor.code = true ↔
      a.descriptor.name = b.descriptor.code := by
  simp [Descriptor.answersTo, h.1]

/-- A rule answers to the name of another one if it has it as a code, since its own name is a
different one. -/
theorem answersTo_name_iff (h : a.Distinct b) :
    a.descriptor.answersTo b.descriptor.name = true ↔
      a.descriptor.code = b.descriptor.name := by
  simp [Descriptor.answersTo, h.2]

end Rule

namespace Catalog

/-- A rule is found by a key that it answers to if no rule before it does so. Rules behind it are
not asked. -/
theorem get?_eq_some_iff {before after : List Rule} {rule : Rule} {key : String}
    (hfresh : rule ∉ before) (hkey : rule.descriptor.answersTo key = true) :
    get? ⟨before ++ rule :: after⟩ key = some rule ↔
      ∀ b ∈ before, ¬ b.descriptor.answersTo key = true := by
  rw [← List.find?_eq_none]
  simp only [get?, List.find?_append, List.find?_cons, hkey]
  cases hfound : before.find? (·.descriptor.answersTo key) with
  | none => simp
  | some b =>
      have hb := List.mem_of_find?_eq_some hfound
      simp only [Option.some_or, Option.some.injEq, reduceCtorEq, iff_false]
      rintro rfl
      exact hfresh hb

section
variable {before after : List Rule} {rule : Rule}
  (hdistinct : (before ++ rule :: after).Pairwise Rule.Distinct)
include hdistinct

/-- A rule differs from those before it, in code and in name. -/
theorem distinct_of_mem_before : ∀ b ∈ before, b.Distinct rule := fun b hb =>
  (List.pairwise_append.1 hdistinct).2.2 b hb rule (by simp)

/-- A rule does not stand among those before it, because it does not differ from itself. -/
theorem not_mem_before : rule ∉ before := fun hmem =>
  (distinct_of_mem_before hdistinct rule hmem).1 rfl

/-- A rule is found by its code unless a rule before it bears the code as a name. A rule behind it
may bear the code as a name without any effect. -/
theorem get?_code_iff :
    get? ⟨before ++ rule :: after⟩ rule.descriptor.code = some rule ↔
      ∀ b ∈ before, b.descriptor.name ≠ rule.descriptor.code := by
  rw [get?_eq_some_iff (not_mem_before hdistinct) (by simp [Descriptor.answersTo])]
  refine forall₂_congr fun b hb => not_congr ?_
  exact Rule.answersTo_code_iff (distinct_of_mem_before hdistinct b hb)

/-- A rule is found by its name unless a rule before it has the name as a code. -/
theorem get?_name_iff :
    get? ⟨before ++ rule :: after⟩ rule.descriptor.name = some rule ↔
      ∀ b ∈ before, b.descriptor.code ≠ rule.descriptor.name := by
  rw [get?_eq_some_iff (not_mem_before hdistinct) (by simp [Descriptor.answersTo])]
  refine forall₂_congr fun b hb => not_congr ?_
  exact Rule.answersTo_name_iff (distinct_of_mem_before hdistinct b hb)

/-- A rule before it that bears the code as a name is found in its place. There is one such rule at
most, because names differ. -/
theorem get?_code_of_name {b : Rule} (hb : b ∈ before)
    (hname : b.descriptor.name = rule.descriptor.code) :
    get? ⟨before ++ rule :: after⟩ rule.descriptor.code = some b := by
  have hdistinctRule := distinct_of_mem_before hdistinct
  obtain ⟨front, back, rfl⟩ := List.append_of_mem hb
  have hsplit : front ++ b :: back ++ rule :: after = front ++ b :: (back ++ rule :: after) := by
    simp
  rw [hsplit] at hdistinct ⊢
  refine (get?_eq_some_iff (not_mem_before hdistinct) ?_).2 fun a ha hanswers => ?_
  · exact (Rule.answersTo_code_iff (hdistinctRule b hb)).2 hname
  · -- A rule further in front that answers would share the name.
    have haname := (Rule.answersTo_code_iff (hdistinctRule a (by simp [ha]))).1 hanswers
    exact (distinct_of_mem_before hdistinct a ha).2 (haname.trans hname.symm)

end

end Catalog

/-! ### Findings and their rules -/

/-- The rule, and no other one, reported the finding in a walk. -/
structure Rule.Reported (file : SourceFile) (tree : SyntaxTree) (interest : Interest) (rule : Rule)
    (d : Diagnostic) : Prop where
  code : d.code = rule.descriptor.code
  name : d.rule = rule.descriptor.name
  call : ∃ i ∈ callRecords file tree interest, i.subscriber.active.rule = rule ∧
    ∃ c ∈ i.findings, d = c.located file
  only : ∀ i ∈ callRecords file tree interest, (∃ c ∈ i.findings, d = c.located file) →
    i.subscriber.active.rule = rule

/-- The proposals for the findings of a report, each with the position of its finding, when these
rules are asked. -/
def proposalsFrom (asked : Diagnostic → Rule) (file : SourceFile) (tree : SyntaxTree)
    (report : FileReport) : List Proposal :=
  report.diagnostics.zipIdx.flatMap fun (d, position) =>
    if d.isFinding then
      (((asked d).propose file tree d).getD []).map fun p => { p with diagnostic := position }
    else []

namespace Engine

variable {e : Engine} {file : SourceFile} {tree : SyntaxTree} {report : FileReport}

/-- A report that an analysis ends in is that of the walk. The tree is valid then, as a tree that
does not fit is the one reason for an error. -/
theorem analyzed_of_eq_ok (h : e.analyze file tree = .ok report) : e.Analyzed file tree report := by
  have hvalid : tree.validate (Text.byteLength file.content.toList) = .ok () := by
    rw [analyze] at h
    split at h
    · cases h
    · assumption
  obtain ⟨report', hreport'⟩ := e.analyzed_of_valid hvalid
  rw [hreport'.ok] at h
  obtain rfl := Except.ok.inj h
  exact hreport'

/-- A finding of a report was reported by one rule of the catalog. It need not be one call that
reported it: a rule may repeat itself, and the first report counts. -/
theorem Analyzed.exists_reporter (h : e.Analyzed file tree report)
    (hcodes : ((e.interest file.category).rules.map (·.rule.descriptor.code)).Nodup)
    {d : Diagnostic} (hd : d ∈ report.diagnostics) (hfinding : d.isFinding = true) :
    ∃ rule ∈ e.catalog.rules, rule.Reported file tree (e.interest file.category) d := by
  have hfaithful := @callRecords_faithful file tree (e.interest file.category)
  obtain ⟨i, hi, c, hc, rfl⟩ := h.exists_call hd
  have hreported := hfaithful.reportedBy hi hc
  have hkind : c.kind = .finding := of_decide_eq_true hfinding
  have hcfinding : c ∈ i.findings := by
    refine (List.mem_append.1 hc).resolve_right fun herror => ?_
    rw [(CallRecord.of_error? (Option.mem_toList.1 herror)).1] at hkind
    cases hkind
  refine ⟨_, (inUse_of_mem_callRecords hi).1, hreported.code, hreported.rule,
    ⟨i, hi, rfl, c, hcfinding, rfl⟩, ?_⟩
  rintro j hj ⟨c', hc', heq⟩
  -- Both calls report under one code, and so they are calls of the rule at one position.
  have hcode : j.descriptor.code = i.descriptor.code := by
    rw [← (hfaithful.of_mem_findings hj hc').2, ← (hfaithful.of_mem_findings hi hcfinding).2]
    exact (congrArg Diagnostic.code heq).symm
  have hactive := hfaithful.active_of_mem hj
  rw [(hfaithful.position_eq_iff hcodes hj hi).2 hcode] at hactive
  have hsame := hactive.symm.trans (hfaithful.active_of_mem hi)
  rw [Option.some.inj hsame]

/-- The proposals are those of the rules that the codes of the findings find. Diagnostics that are
no findings have no proposals. -/
theorem proposals_eq_proposalsFrom {asked : Diagnostic → Rule}
    (hasked : ∀ d ∈ report.diagnostics, d.isFinding = true →
      e.catalog.get? d.code = some (asked d)) (file : SourceFile) (tree : SyntaxTree) :
    e.proposals file tree report = proposalsFrom asked file tree report := by
  refine List.flatMap_congr fun ⟨d, position⟩ hmem => ?_
  have hd : d ∈ report.diagnostics := (List.mem_zipIdx hmem).2.2 ▸ List.getElem_mem _
  dsimp only
  split
  · rename_i hfinding
    rw [hasked d hd hfinding]
  · rfl

end Engine

/-- The rule that the code of a finding finds, next to the rule that reported it: they are the same
unless a rule before bears the code as a name, and then that rule is found. -/
theorem Catalog.exists_found {rules : List Rule} (hdistinct : rules.Pairwise Rule.Distinct)
    {rule : Rule} (hrule : rule ∈ rules) :
    ∃ found, get? ⟨rules⟩ rule.descriptor.code = some found ∧
      ∃ before after, rules = before ++ rule :: after ∧
        ((∀ b ∈ before, b.descriptor.name ≠ rule.descriptor.code) → found = rule) ∧
        ∀ b ∈ before, b.descriptor.name = rule.descriptor.code → found = b := by
  obtain ⟨before, after, rfl⟩ := List.append_of_mem hrule
  by_cases hfree : ∀ b ∈ before, b.descriptor.name ≠ rule.descriptor.code
  · exact ⟨rule, (get?_code_iff hdistinct).2 hfree, before, after, rfl, fun _ => rfl,
      fun b hb hname => absurd hname (hfree b hb)⟩
  · push Not at hfree
    obtain ⟨b, hb, hname⟩ := hfree
    -- Names differ, so at most one rule before bears the code as its name.
    have hfound := get?_code_of_name hdistinct hb hname
    refine ⟨b, hfound, before, after, rfl, fun hnone => absurd hname (hnone b hb), ?_⟩
    intro b' hb' hname'
    exact Option.some.inj (hfound.symm.trans (get?_code_of_name hdistinct hb' hname'))

/-- A rule of a catalog is found by its code unless a rule before it bears the code as a name, and
by its name unless a rule before it has the name as a code. So, whatever an analysis reported, the
fixes of a finding are asked of the rule that reported it, unless a rule before bears its code as a
name; then they are asked of that rule. -/
theorem fix_asks_rule_found {rules : List Rule} {catalog : Catalog}
    (hcatalog : Catalog.build rules = .ok catalog) :
    (∀ (before after : List Rule) (rule : Rule), rules = before ++ rule :: after →
      (catalog.get? rule.descriptor.code = some rule ↔
        ∀ b ∈ before, b.descriptor.name ≠ rule.descriptor.code) ∧
      (catalog.get? rule.descriptor.name = some rule ↔
        ∀ b ∈ before, b.descriptor.code ≠ rule.descriptor.name)) ∧
    ∀ (config : Config) (file : SourceFile) (tree : SyntaxTree) (report : FileReport),
      Engine.analyze ⟨catalog, config⟩ file tree = .ok report →
      ∃ reporter asked : Diagnostic → Rule,
        (∀ d ∈ report.diagnostics, d.isFinding = true →
          (reporter d).Reported file tree (Interest.build catalog config file.category) d ∧
          ∃ before after, rules = before ++ reporter d :: after ∧
            ((∀ b ∈ before, b.descriptor.name ≠ d.code) → asked d = reporter d) ∧
            ∀ b ∈ before, b.descriptor.name = d.code → asked d = b) ∧
        ∀ (file' : SourceFile) (tree' : SyntaxTree) (allowRisky : Bool),
          ∃ outcome, Engine.fix ⟨catalog, config⟩ file' tree' report allowRisky = .ok outcome ∧
            outcome.resolution = (Engine.resolver ⟨catalog, config⟩ allowRisky).resolve
              (proposalsFrom asked file' tree' report) report.diagnostics file'.content := by
  obtain ⟨-, hdistinct, rfl⟩ := Catalog.build_eq_ok_iff.1 hcatalog
  refine ⟨?_, fun config file tree report hreport => ?_⟩
  · rintro before after rule rfl
    exact ⟨Catalog.get?_code_iff hdistinct, Catalog.get?_name_iff hdistinct⟩
  · have hanalyzed := Engine.analyzed_of_eq_ok hreport
    have hcodes := Interest.nodup_codes_build hdistinct config file.category
    have hrules : ∀ d, d ∈ report.diagnostics → d.isFinding = true → ∃ reporter found : Rule,
        reporter.Reported file tree (Interest.build ⟨rules⟩ config file.category) d ∧
        Catalog.get? ⟨rules⟩ d.code = some found ∧
        ∃ before after, rules = before ++ reporter :: after ∧
          ((∀ b ∈ before, b.descriptor.name ≠ d.code) → found = reporter) ∧
          ∀ b ∈ before, b.descriptor.name = d.code → found = b := by
      intro d hd hfinding
      obtain ⟨reporter, hmem, hreported⟩ :=
        hanalyzed.exists_reporter (by rwa [Engine.interest_eq]) hd hfinding
      rw [Engine.interest_eq] at hreported
      obtain ⟨found, hfound⟩ := Catalog.exists_found hdistinct hmem
      rw [← hreported.code] at hfound
      exact ⟨reporter, found, hreported, hfound⟩
    -- What is asked for a diagnostic outside of the report does not matter, so any rule will do
    -- there.
    have : Nonempty Rule := ⟨⟨{ code := "", name := "", message := "" }, [], fun _ _ _ => none⟩⟩
    choose! reporter asked hreported hfound hplace using hrules
    refine ⟨reporter, asked, fun d hd hfinding => ⟨hreported d hd hfinding, hplace d hd hfinding⟩,
      fun file' tree' allowRisky => ?_⟩
    obtain ⟨outcome, houtcome⟩ :=
      Engine.exists_fixes ⟨⟨rules⟩, config⟩ file' tree' report allowRisky
    refine ⟨outcome, houtcome.ok, ?_⟩
    rw [houtcome.resolution, Engine.proposals_eq_proposalsFrom hfound]

/-! ### A name that is the code of another rule -/

/-- Bears the code of the next rule as its name, and reports nothing. -/
def shadowingRule : Rule where
  descriptor := { code := "A1", name := "B1", message := "never" }
  subscriptions := []
  propose := fun _ _ d => some [{ edits := [⟨d.range, "wrong"⟩], label := "wrong" }]

/-- Reports every file. -/
def shadowedRule : Rule where
  descriptor := { code := "B1", name := "shadowed", message := "found" }
  subscriptions := Subscription.onEach [.file] fun scene =>
    .reportOne ⟨scene.node.range, "found", none⟩
  propose := fun _ _ d => some [{ edits := [⟨d.range, "right"⟩], label := "right" }]

/-- The two rules, the one that shadows first. -/
def shadowCatalog : Catalog := ⟨[shadowingRule, shadowedRule]⟩

/-- A file that holds one letter. -/
def letterFile : SourceFile := SourceFile.ofPath "src/lib.rs" "x" ""

/-- The tree of this file, which is a single node. -/
def letterTree : SyntaxTree := ⟨#[{ kind := .file, range := ⟨0, 1⟩ }]⟩

/-- What the second rule found in the file. -/
def letterReport : FileReport where
  path := "src/lib.rs"
  category := .source
  diagnostics := [{
    code := "B1", rule := "shadowed", severity := .warning, range := ⟨0, 1⟩
    location := ⟨1, 1, 1, 2⟩, message := "found" }]
  stats := ⟨1, 1, 0⟩

/-- The analysis of the file with the two rules. Only the second one subscribes to anything. -/
theorem analyze_letterFile :
    Engine.analyze ⟨shadowCatalog, {}⟩ letterFile letterTree = .ok letterReport :=
  eq_ok_of_toOption (by decide +kernel)

/-- The second rule is found by its name only, and the first rule is asked in its place. The name of
the first is the code of the second. -/
theorem fix_asks_rule_found_shadowed :
    Catalog.build [shadowingRule, shadowedRule] = .ok shadowCatalog ∧
      shadowCatalog.get? "A1" = some shadowingRule ∧
      shadowCatalog.get? "B1" ≠ some shadowedRule ∧
      shadowCatalog.get? "shadowed" = some shadowedRule ∧
      Engine.analyze ⟨shadowCatalog, {}⟩ letterFile letterTree = .ok letterReport ∧
      ∃ reporter asked : Diagnostic → Rule,
        (∀ d ∈ letterReport.diagnostics, reporter d = shadowedRule ∧ asked d = shadowingRule) ∧
        ∃ outcome, Engine.fix ⟨shadowCatalog, {}⟩ letterFile letterTree letterReport false =
            .ok outcome ∧
          outcome.resolution = (Engine.resolver ⟨shadowCatalog, {}⟩ false).resolve
            (proposalsFrom asked letterFile letterTree letterReport) letterReport.diagnostics
            letterFile.content := by
  have hcatalog : Catalog.build [shadowingRule, shadowedRule] = .ok shadowCatalog := by rfl
  obtain ⟨hkeys, hreports⟩ := fix_asks_rule_found hcatalog
  have hfirst := hkeys [] [shadowedRule] shadowingRule rfl
  have hsecond := hkeys [shadowingRule] [] shadowedRule rfl
  obtain ⟨reporter, asked, hrules, hfix⟩ :=
    hreports {} letterFile letterTree letterReport analyze_letterFile
  refine ⟨hcatalog, hfirst.1.2 (by simp), fun h => hsecond.1.1 h shadowingRule (by simp) rfl,
    hsecond.2.2 (by decide), analyze_letterFile, reporter, asked, fun d hd => ?_,
    hfix letterFile letterTree false⟩
  have hd' : d.isFinding = true ∧ d.code = "B1" := by
    rw [List.mem_singleton.1 hd]
    decide
  obtain ⟨hreported, before, after, hsplit, -, hasked⟩ := hrules d hd hd'.1
  have hcode : (reporter d).descriptor.code = "B1" := hreported.code.symm.trans hd'.2
  -- Of the two rules only the second has this code.
  rcases before with _ | ⟨first, _ | ⟨second, before⟩⟩
  · obtain ⟨hrule, -⟩ := List.cons.inj hsplit
    rw [← hrule] at hcode
    exact absurd hcode (by decide)
  · obtain ⟨hshadow, hrest⟩ := List.cons.inj hsplit
    obtain ⟨hrule, -⟩ := List.cons.inj hrest
    exact ⟨hrule.symm, hshadow ▸ hasked first (by simp) (by rw [← hshadow, hd'.2]; rfl)⟩
  · simp at hsplit

/-- Fixes can be asked of a rule that did not report. The rules make a catalog, but the code of the
second one finds the first one. The second rule reports the file, and the text that fixing ends in
is the one that the first rule proposes. -/
theorem fix_asks_other_rule :
    Catalog.build [shadowingRule, shadowedRule] = .ok shadowCatalog ∧
      shadowCatalog.get? shadowedRule.descriptor.code = some shadowingRule ∧
      shadowCatalog.get? shadowedRule.descriptor.code ≠ some shadowedRule ∧
      Engine.analyze ⟨shadowCatalog, {}⟩ letterFile letterTree = .ok letterReport ∧
      (letterReport.diagnostics.map fun d => (d.code, d.rule)) = [("B1", "shadowed")] ∧
      ∃ outcome, Engine.fix ⟨shadowCatalog, {}⟩ letterFile letterTree letterReport false =
          .ok outcome ∧
        outcome.resolution.accepted.map (·.label) = ["wrong"] ∧ outcome.fixed = some "wrong" := by
  refine ⟨rfl, rfl, fun h => ?_, analyze_letterFile, rfl,
    ⟨⟨[{ edits := [⟨⟨0, 1⟩, "wrong"⟩], label := "wrong" }], []⟩, [⟨⟨0, 1⟩, "wrong"⟩], some "wrong"⟩,
    eq_ok_of_toOption (by decide +kernel), rfl, rfl⟩
  have hcode := congrArg (Option.map (·.descriptor.code)) h
  exact absurd hcode (by decide)

end Arborist
