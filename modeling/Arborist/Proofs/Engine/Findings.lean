import Arborist.Proofs.Engine.Attribution
import Arborist.Proofs.Walk.Conduct

/-!
# `Arborist.Proofs.Engine.Findings`: the findings of one rule

A rule that follows a conduct makes the same reports in every walk (`Conduct.reports`), and what a
walk keeps of them is a finding for each of their ranges (`Conduct.findingPerRange`), the first one
that was reported (`Conduct.first_of_mem_ofCalls`). In a catalog these are the findings under the
code of the rule.
-/

set_option autoImplicit false

namespace Arborist

/-! ### The reports of a conduct -/

namespace Conduct

/-- Everything that the rule reports at a node. -/
def reportsAt (tree : SyntaxTree) (c : Conduct) (active : ActiveRule)
    (entry : NodeId × SyntaxNode) : List Diagnostic :=
  if c.shades tree entry.1 then []
  else (active.rule.subscriptions.filter (·.kind = entry.2.kind)).flatMap fun _ =>
    (c.findings entry.2).map active.diagnostic

/-- Everything that the rule reports, in order. -/
def reports (tree : SyntaxTree) (c : Conduct) (active : ActiveRule) : List Diagnostic :=
  tree.enumerated.flatMap (c.reportsAt tree active)

/-- The rule reports this range: a finding at a node that it is called at. -/
def Reports (tree : SyntaxTree) (c : Conduct) (rule : Rule) (range : TextRange) : Prop :=
  ∃ id node, tree.node? id = some node ∧ c.shades tree id = false ∧
    (∃ s ∈ rule.subscriptions, s.kind = node.kind) ∧ ∃ f ∈ c.findings node, f.range = range

section
variable {file : SourceFile} {tree : SyntaxTree} {length : Nat} {c : Conduct}
  {active : ActiveRule}

/-- A call of a rule that follows a conduct reports the findings of the conduct, and it never
fails. -/
theorem reports_recordOf (position : Nat) (id : NodeId) (node : SyntaxNode) (s : Subscription) :
    (c.recordOf position active id node s).reports = (c.findings node).map active.diagnostic := by
  simp [CallRecord.reports, CallRecord.error?, recordOf]

/-- The reports of all calls of the rule, in order, are those of the conduct. Records know the
position of the rule, which reports do not show. -/
theorem flatMap_reports_records (position : Nat) :
    (c.records tree position active).flatMap (·.reports) = c.reports tree active := by
  rw [records, reports, List.flatMap_assoc]
  congr 1
  funext entry
  rw [recordsAt, reportsAt]
  split
  · rfl
  · rw [List.flatMap_map]
    simp only [reports_recordOf]

/-- What is reported at a node: the findings of the conduct there, provided that the rule subscribed
to the kind of the node and is not told to leave the node out. -/
theorem mem_reportsAt_iff {id : NodeId} {node : SyntaxNode} {d : Diagnostic} :
    d ∈ c.reportsAt tree active (id, node) ↔ c.shades tree id = false ∧
      (∃ s ∈ active.rule.subscriptions, s.kind = node.kind) ∧
        ∃ f ∈ c.findings node, d = active.diagnostic f := by
  rw [reportsAt]
  by_cases hshades : c.shades tree id = true
  · simp [hshades]
  · simp only [hshades, Bool.false_eq_true, if_false, List.mem_flatMap, List.mem_filter,
      decide_eq_true_eq, List.mem_map]
    constructor
    · rintro ⟨s, hs, f, hf, rfl⟩
      exact ⟨trivial, ⟨s, hs⟩, f, hf, rfl⟩
    · rintro ⟨-, ⟨s, hs⟩, f, hf, rfl⟩
      exact ⟨s, hs, f, hf, rfl⟩

/-- What is reported at all is what is reported at some node of the arena. -/
theorem mem_reports_iff {d : Diagnostic} :
    d ∈ c.reports tree active ↔
      ∃ id node, tree.node? id = some node ∧ c.shades tree id = false ∧
        (∃ s ∈ active.rule.subscriptions, s.kind = node.kind) ∧
          ∃ f ∈ c.findings node, d = active.diagnostic f := by
  simp only [reports, List.mem_flatMap, Prod.exists, SyntaxTree.mem_enumerated, mem_reportsAt_iff]

/-- A range is reported exactly if a diagnostic with this range is reported at some node. With this,
questions about ranges become questions about the diagnostics at single nodes. -/
theorem reports_range_iff {range : TextRange} :
    c.Reports tree active.rule range ↔ ∃ id node, tree.node? id = some node ∧
      ∃ d ∈ c.reportsAt tree active (id, node), d.range = range := by
  simp only [Reports, mem_reportsAt_iff]
  constructor
  · rintro ⟨id, node, hnode, hshades, hs, f, hf, rfl⟩
    exact ⟨id, node, hnode, active.diagnostic f, ⟨hshades, hs, f, hf, rfl⟩, rfl⟩
  · rintro ⟨id, node, hnode, d, ⟨hshades, hs, f, hf, rfl⟩, rfl⟩
    exact ⟨id, node, hnode, hshades, hs, f, hf, rfl⟩

/-- What is kept of the reports was made at the first node with a report of its range. The reports
stand in the order of the arena, so that the first with a key belongs to the smallest number. -/
theorem first_of_mem_ofCalls {d : Diagnostic}
    (h : d ∈ (Reporter.ofCalls (c.reports tree active)).diagnostics) :
    ∃ id node, tree.node? id = some node ∧ d ∈ c.reportsAt tree active (id, node) ∧
      ∀ j other, j < id → tree.node? j = some other →
        ∀ e ∈ c.reportsAt tree active (j, other), e.key ≠ d.key := by
  have hfirst := Reporter.mem_ofCalls.1 h
  rw [reports, List.find?_flatMap] at hfirst
  obtain ⟨before, ⟨id, node⟩, after, hsplit, hfound, hbefore⟩ :=
    List.findSome?_eq_some_iff.1 hfirst
  -- The nodes before this one are those with smaller numbers.
  have hget : tree.enumerated[before.length]? = some (id, node) := by
    rw [hsplit]
    simp
  rw [SyntaxTree.getElem?_enumerated, Option.map_eq_some_iff] at hget
  obtain ⟨other, hnode, heq⟩ := hget
  cases heq
  refine ⟨before.length, node, hnode, List.mem_of_find?_eq_some hfound, ?_⟩
  intro j other hlt hother e he hkey
  have htake : (j, other) ∈ tree.enumerated.take before.length :=
    SyntaxTree.mem_take_enumerated.2 ⟨hlt, hother⟩
  rw [hsplit, List.take_left] at htake
  have hnone := List.find?_eq_none.1 (hbefore _ htake) e he
  exact hnone (decide_eq_true hkey)

/-- In use alone, the rule makes these reports and no others: all calls of the walk are calls of
this rule, and `callRecords_filter` tells what these are. -/
theorem reporter_alone (hvalid : tree.validate length = .ok ())
    (hrule : active.rule.Follows file tree c) (category : FileCategory) :
    (walk file tree (Interest.alone category active)).reporter =
      Reporter.ofCalls (c.reports tree active) := by
  have hfaithful : Recording.Faithful tree (Interest.alone category active)
      ⟨walk file tree (Interest.alone category active),
        callRecords file tree (Interest.alone category active)⟩ := callRecords_faithful
  -- There is one rule, so every call is at position 0.
  have hposition : ∀ i ∈ callRecords file tree (Interest.alone category active),
      decide (i.position = 0) = true := by
    intro i hi
    have hlt : i.position < 1 := Interest.position_lt_of_mem (hfaithful.subscribed i hi).2
    exact decide_eq_true (by omega)
  have hactive : (Interest.alone category active).rules[0]? = some active := rfl
  have hrecords := callRecords_filter hvalid hactive hrule
  rw [List.filter_eq_self.2 hposition] at hrecords
  have hreporter : (walk file tree (Interest.alone category active)).reporter = _ :=
    hfaithful.reporter
  rw [hreporter]
  simp only [hrecords, flatMap_reports_records]

end

end Conduct

/-! ### One finding for each range -/

/-- The diagnostics are findings under a code, one for each of the ranges with a property. -/
structure FindingPerRange (code : String) (Reported : TextRange → Prop)
    (diagnostics : List Diagnostic) : Prop where
  findings : ∀ d ∈ diagnostics, d.kind = .finding ∧ d.code = code
  once : (diagnostics.map (·.range)).Nodup
  exactly : ∀ range, (∃ d ∈ diagnostics, d.range = range) ↔ Reported range

/-- Without directives nothing is left out. -/
theorem Reporter.not_omits_none (file : SourceFile) (d : Diagnostic) :
    ¬ Omits file .none d := by
  rintro ⟨-, hsome⟩
  simp [Suppressions.none, Suppressions.find?, Suppressions.onLine] at hsome

/-- What is left of reports with one code when directives are not looked at: one finding for each
range that was reported. -/
theorem Reporter.findingPerRange {calls : List Diagnostic} {code : String}
    (hcalls : ∀ d ∈ calls, d.kind = .finding ∧ d.code = code) (file : SourceFile) :
    FindingPerRange code (fun range => ∃ d ∈ calls, d.range = range)
      ((ofCalls calls).finalize file .none) := by
  have hheld : ∀ d ∈ (ofCalls calls).diagnostics, d ∈ calls := fun d hd =>
    List.mem_of_find?_eq_some (mem_ofCalls.1 hd)
  have hmem : ∀ d, d ∈ (ofCalls calls).finalize file .none ↔
      ∃ e ∈ (ofCalls calls).diagnostics, d = e.located file := by
    intro d
    simp [mem_finalize_iff, not_omits_none]
  have hfindings : ∀ d ∈ (ofCalls calls).finalize file .none,
      d.kind = .finding ∧ d.code = code := by
    intro d hd
    obtain ⟨e, he, rfl⟩ := (hmem d).1 hd
    exact hcalls e (hheld e he)
  constructor
  · exact hfindings
  · -- With one kind and one code, diagnostics of one range would have one rank.
    have hsorted : ((ofCalls calls).finalize file .none).Pairwise fun a b => a.rank < b.rank :=
      (deduplicated_ofCalls calls).finalize_pairwise
    rw [List.Nodup, List.pairwise_map]
    refine hsorted.imp_of_mem fun {a b} ha hb hlt hrange => ?_
    have hkey : a.key = b.key := by
      rw [Diagnostic.key, Diagnostic.key, (hfindings a ha).1, (hfindings a ha).2,
        (hfindings b hb).1, (hfindings b hb).2, hrange]
    exact absurd (Diagnostic.rank_eq_iff.2 hkey) (ne_of_lt hlt)
  · intro range
    constructor
    · rintro ⟨d, hd, rfl⟩
      obtain ⟨e, he, rfl⟩ := (hmem d).1 hd
      exact ⟨e, hheld e he, rfl⟩
    · rintro ⟨d, hd, rfl⟩
      -- The first report with the key of `d` has its range.
      obtain ⟨e, he, hkey⟩ := List.mem_map.1 (mem_keys_ofCalls.2 (List.mem_map_of_mem hd))
      refine ⟨e.located file, (hmem _).2 ⟨e, he, rfl⟩, ?_⟩
      exact (Prod.mk.inj (Prod.mk.inj hkey).2).2

/-- What is kept of the reports of a conduct has one finding for each range that the rule
reports. -/
theorem Conduct.findingPerRange (tree : SyntaxTree) (c : Conduct) (active : ActiveRule)
    (file : SourceFile) :
    FindingPerRange active.rule.descriptor.code (c.Reports tree active.rule)
      ((Reporter.ofCalls (c.reports tree active)).finalize file .none) := by
  have hcalls : ∀ d ∈ c.reports tree active,
      d.kind = .finding ∧ d.code = active.rule.descriptor.code := by
    intro d hd
    obtain ⟨id, node, -, -, -, f, -, rfl⟩ := mem_reports_iff.1 hd
    exact ⟨rfl, rfl⟩
  -- The reports of the conduct are listed node by node, in the order of the arena.
  have hranges : ∀ range, (∃ d ∈ c.reports tree active, d.range = range) ↔
      c.Reports tree active.rule range := by
    intro range
    rw [reports_range_iff]
    simp only [reports, List.mem_flatMap, Prod.exists, SyntaxTree.mem_enumerated]
    constructor
    · rintro ⟨d, ⟨id, node, hnode, hd⟩, hrange⟩
      exact ⟨id, node, hnode, d, hd, hrange⟩
    · rintro ⟨id, node, hnode, d, hd, hrange⟩
      exact ⟨d, ⟨id, node, hnode, hd⟩, hrange⟩
  have hall := Reporter.findingPerRange hcalls file
  exact ⟨hall.findings, hall.once, fun range => (hall.exactly range).trans (hranges range)⟩

/-! ### Rules in a catalog -/

/-- A catalog of one rule that is in use has that rule in use, and nothing else. -/
theorem Interest.build_of_inUse {rule : Rule} {config : Config} {category : FileCategory}
    (h : rule.InUse config category) :
    build ⟨[rule]⟩ config category =
      alone category ⟨rule, config.severityOf rule.descriptor⟩ := by
  have hpicks := picks_iff.2 h
  simp only [build, List.filter_cons, List.filter_nil, if_pos hpicks]
  rfl

section
variable {file : SourceFile} {tree : SyntaxTree} {length : Nat} {c : Conduct} {rule : Rule}
  {config : Config} {category : FileCategory} (hvalid : tree.validate length = .ok ())
  (hrule : rule.Follows file tree c) (huse : rule.InUse config category)
include hvalid hrule huse

/-- The reports of a rule that is in use as the only one. By `only_reporter_walk_build`, these are
also the reports under its code in any other catalog. -/
theorem reporter_walk_singleton :
    (walk file tree (Interest.build ⟨[rule]⟩ config category)).reporter =
      Reporter.ofCalls (c.reports tree ⟨rule, config.severityOf rule.descriptor⟩) := by
  have hfollows : (⟨rule, config.severityOf rule.descriptor⟩ : ActiveRule).rule.Follows file tree
      c := hrule
  rw [Interest.build_of_inUse huse, Conduct.reporter_alone hvalid hfollows]

/-- The findings of a rule that is in use as the only one, when directives are not looked at: one
for each range that its conduct reports. -/
theorem findingPerRange_walk_singleton :
    FindingPerRange rule.descriptor.code (c.Reports tree rule)
      ((walk file tree (Interest.build ⟨[rule]⟩ config category)).reporter.finalize file
        .none) := by
  rw [reporter_walk_singleton hvalid hrule huse]
  exact c.findingPerRange tree ⟨rule, config.severityOf rule.descriptor⟩ file

end

/-- The directives of a file leave out findings, and do nothing else: what is left stands in the
report as it would without them. -/
theorem Engine.Analyzed.mem_diagnostics_iff {e : Engine} {file : SourceFile} {tree : SyntaxTree}
    {report : FileReport} (h : e.Analyzed file tree report) {d : Diagnostic} :
    d ∈ report.diagnostics ↔
      d ∈ (walk file tree
          (Interest.build e.catalog e.config file.category)).reporter.finalize file .none ∧
        ¬ Reporter.Omits file (Suppressions.parse file.content) d := by
  rw [h.diagnostics, e.interest_eq, Reporter.mem_finalize_iff, Reporter.mem_finalize_iff]
  constructor
  · rintro ⟨c, hc, homits, rfl⟩
    exact ⟨⟨c, hc, Reporter.not_omits_none file c, rfl⟩, homits⟩
  · rintro ⟨⟨c, hc, -, rfl⟩, homits⟩
    exact ⟨c, hc, homits, rfl⟩

end Arborist
