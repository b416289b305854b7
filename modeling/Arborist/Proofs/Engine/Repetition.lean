import Arborist.Proofs.Engine.Findings

/-!
# `Arborist.Proofs.Engine.Repetition`: callbacks that only repeat

A rule can come across one thing on several ways, and then it reports it several times. Callbacks
only repeat (`Conduct.Repeats`) if whatever they find was found before under another callback. The
record of a walk shows each call with the reporter as it was then (`inTurn_callRecords`), and such
callbacks have all their reports dropped (`Repeats.not_isNew`). So the rule could do without them
(`Repeats.reporter_walk_keep`), in any catalog (`finalize_walk_replace`).
-/

set_option autoImplicit false

namespace Arborist

/-! ### The reporter in the course of a walk -/

/-- Each call found the reporter with the reports of the calls before it. -/
def CallRecord.InTurn (file : SourceFile) (tree : SyntaxTree) (records : List CallRecord) : Prop :=
  ∀ earlier i later, records = earlier ++ i :: later →
    i = .ofCall file tree i.id i.node i.subscriber
      (Reporter.ofCalls (earlier.flatMap (·.reports)))

/-- One more call, made with the reporter as it is then, stands in its turn. The calls before it are
not affected. -/
theorem CallRecord.InTurn.concat {file : SourceFile} {tree : SyntaxTree}
    {records : List CallRecord} (h : InTurn file tree records) (id : NodeId) (node : SyntaxNode)
    (s : Subscriber) :
    InTurn file tree (records ++ [.ofCall file tree id node s
      (Reporter.ofCalls (records.flatMap (·.reports)))]) := by
  intro earlier i later heq
  rcases later.eq_nil_or_concat with rfl | ⟨rest, last, rfl⟩
  · obtain ⟨rfl, hlast⟩ := List.append_inj' heq rfl
    obtain rfl := List.singleton_inj.1 hlast
    rfl
  · rw [List.concat_eq_append, ← List.cons_append, ← List.append_assoc] at heq
    exact h earlier i rest (List.append_inj' heq rfl).1

/-- In a walk each call finds the reporter with the reports of the calls before it. The invariant
also says that the reporter of the walk is made of the reports recorded so far, which is what the
next call finds. -/
theorem inTurn_callRecords (file : SourceFile) (tree : SyntaxTree) (interest : Interest) :
    CallRecord.InTurn file tree (callRecords file tree interest) := by
  have hall := @recorded_invariant file tree interest
    (fun k => k.walk.reporter = Reporter.ofCalls (k.records.flatMap (·.reports)) ∧
      CallRecord.InTurn file tree k.records)
    ⟨rfl, fun earlier i later heq => by simp at heq⟩ (fun k hk => hk)
    fun k id node hk _ s _ _ => ?_
  · exact hall.2
  · refine ⟨Recording.reporter_call_eq hk.1 id node s, ?_⟩
    rw [hk.1]
    exact hk.2.concat id node s

/-- The rule of a call is the one with its code. The severity with which it is in use is the one
recorded with the call. -/
theorem active_of_code {rules : List Rule} (hdistinct : rules.Pairwise Rule.Distinct)
    {config : Config} {category : FileCategory} {file : SourceFile} {tree : SyntaxTree}
    {i : CallRecord} (hi : i ∈ callRecords file tree (Interest.build ⟨rules⟩ config category))
    {rule : Rule} (hrule : rule ∈ rules) (hcode : i.descriptor.code = rule.descriptor.code) :
    (Interest.build ⟨rules⟩ config category).rules[i.position]? =
      some ⟨rule, i.subscriber.active.severity⟩ := by
  have hactive := callRecords_faithful.active_of_mem hi
  have hmem := Interest.mem_rules_of_mem_build (List.mem_of_getElem? hactive)
  have heq : i.subscriber.active.rule = rule := Rule.eq_of_code_eq hdistinct hmem hrule hcode
  rw [hactive, ← heq]

/-! ### Reports that are dropped -/

namespace Reporter

/-- A report is dropped if one with its key came before, and the reporter stays as it was. The
answer says that it is not new. -/
theorem report_ofCalls_known {calls : List Diagnostic} {d : Diagnostic}
    (h : ∃ e ∈ calls, e.key = d.key) : (ofCalls calls).report d = (false, ofCalls calls) := by
  obtain ⟨e, he, hkey⟩ := h
  have hold : ¬ ((ofCalls calls).report d).1 = true := fun hnew =>
    report_ofCalls_isNew_iff.1 hnew e he hkey
  rw [report] at hold ⊢
  split at hold
  · rename_i hany
    rw [if_pos hany]
  · exact absurd rfl hold

/-- Reports that come after one with their key change nothing, however many there are. The induction
takes them off at the end. -/
theorem ofCalls_append_known {calls more : List Diagnostic}
    (h : ∀ d ∈ more, ∃ e ∈ calls, e.key = d.key) : ofCalls (calls ++ more) = ofCalls calls := by
  induction more using List.reverseRecOn with
  | nil => rw [List.append_nil]
  | append_singleton more d ih =>
      obtain ⟨e, he, hkey⟩ := h d (by simp)
      rw [← List.append_assoc, ofCalls_concat,
        report_ofCalls_known ⟨e, List.mem_append_left more he, hkey⟩]
      exact ih fun d' hd' => h d' (List.mem_append_left _ hd')

/-- What comes of further reports depends on the reporter before them, and not on how it came
about. -/
theorem ofCalls_append_congr {calls calls' : List Diagnostic} (h : ofCalls calls = ofCalls calls')
    (more : List Diagnostic) : ofCalls (calls ++ more) = ofCalls (calls' ++ more) := by
  have hfold : ∀ calls, ofCalls (calls ++ more) =
      more.foldl (fun r d => (r.report d).2) (ofCalls calls) := fun _ => List.foldl_append
  rw [hfold, hfold, h]

end Reporter

/-! ### Rules with fewer callbacks -/

/-- The rule with some of its callbacks only. -/
def Rule.keep (kept : Subscription → Bool) (rule : Rule) : Rule :=
  { rule with subscriptions := rule.subscriptions.filter kept }

/-- A rule that is sound by itself stays so with fewer callbacks: the descriptor is the same, and no
place gets another callback. -/
theorem Rule.Sound.keep {rule : Rule} (h : rule.Sound) (kept : Subscription → Bool) :
    (rule.keep kept).Sound :=
  ⟨h.descriptor, h.slots.sublist List.filter_sublist⟩

/-- A rule with fewer callbacks follows the same conduct, if the conduct never skips a subtree. A
rule that skips has to hear of the node where it does so. -/
theorem Rule.Follows.keep {file : SourceFile} {tree : SyntaxTree} {rule : Rule} {c : Conduct}
    (h : rule.Follows file tree c) (kept : Subscription → Bool)
    (hskips : ∀ node, c.skips node = false) : (rule.keep kept).Follows file tree c where
  tells s hs := h.tells s (List.mem_filter.1 hs).1
  hears := by
    intro node hnode
    rw [hskips] at hnode
    cases hnode

/-- Rules fit together like others with the same descriptors, if each is sound by itself. Whether
two rules are distinct depends on their descriptors alone. -/
theorem Catalog.build_replace {before after : List Rule} {rule rule' : Rule} {catalog : Catalog}
    (h : Catalog.build (before ++ rule :: after) = .ok catalog)
    (hdescriptor : rule'.descriptor = rule.descriptor) (hsound : rule'.Sound) :
    Catalog.build (before ++ rule' :: after) = .ok ⟨before ++ rule' :: after⟩ := by
  obtain ⟨hall, hdistinct, -⟩ := build_eq_ok_iff.1 h
  refine build_eq_ok_iff.2 ⟨fun r hr => ?_, ?_, rfl⟩
  · rcases List.mem_append.1 hr with hr | hr
    · exact hall r (List.mem_append_left _ hr)
    · rcases List.mem_cons.1 hr with rfl | hr
      · exact hsound
      · exact hall r (by simp [hr])
  · rw [List.pairwise_append, List.pairwise_cons] at hdistinct ⊢
    simpa only [List.forall_mem_cons, Rule.Distinct, hdescriptor] using hdistinct

/-- A rule can be replaced by one under the same code that comes to the same alone. The final report
is decided by the reports under each code: under the code of the rule they are the same by
assumption, and under the others they do not depend on this rule. -/
theorem finalize_walk_replace {before after : List Rule} {rule rule' : Rule} {config : Config}
    {category : FileCategory} {file : SourceFile} {tree : SyntaxTree}
    (hdistinct : (before ++ rule :: after).Pairwise Rule.Distinct)
    (hdistinct' : (before ++ rule' :: after).Pairwise Rule.Distinct)
    (hcode : rule'.descriptor.code = rule.descriptor.code)
    (halone : (walk file tree (Interest.build ⟨[rule']⟩ config category)).reporter =
      (walk file tree (Interest.build ⟨[rule]⟩ config category)).reporter)
    (suppressions : Suppressions) :
    (walk file tree (Interest.build ⟨before ++ rule' :: after⟩ config category)).reporter.finalize
        file suppressions =
      (walk file tree (Interest.build ⟨before ++ rule :: after⟩ config category)).reporter.finalize
        file suppressions := by
  refine Reporter.finalize_congr_only (deduplicated_walk file tree _)
    (deduplicated_walk file tree _) fun code => ?_
  by_cases hown : code = rule.descriptor.code
  · have hrule := only_reporter_walk_build hdistinct (by simp : rule ∈ _) config category file tree
    have hrule' :=
      only_reporter_walk_build hdistinct' (by simp : rule' ∈ _) config category file tree
    rw [hcode] at hrule'
    rw [hown, hrule, hrule', halone]
  · by_cases hother : ∃ other ∈ before ++ after, other.descriptor.code = code
    · -- Both lists have the other rule, which does not see what was replaced.
      obtain ⟨other, hmem, rfl⟩ := hother
      have hin : ∀ r : Rule, other ∈ before ++ r :: after := by
        intro r
        rcases List.mem_append.1 hmem with hmem | hmem <;> simp [hmem]
      rw [only_reporter_walk_build hdistinct (hin rule),
        only_reporter_walk_build hdistinct' (hin rule')]
    · have habsent : ∀ r : Rule, r.descriptor.code = rule.descriptor.code →
          ∀ active ∈ (Interest.build ⟨before ++ r :: after⟩ config category).rules,
            active.rule.descriptor.code ≠ code := by
        intro r hr active hactive hactiveCode
        have hmem := Interest.mem_rules_of_mem_build hactive
        rcases List.mem_append.1 hmem with hmem | hmem
        · exact hother ⟨_, List.mem_append_left _ hmem, hactiveCode⟩
        · rcases List.mem_cons.1 hmem with heq | hmem
          · rw [heq, hr] at hactiveCode
            exact hown hactiveCode.symm
          · exact hother ⟨_, List.mem_append_right _ hmem, hactiveCode⟩
      rw [only_reporter_walk (habsent rule rfl), only_reporter_walk (habsent rule' hcode)]

/-! ### Callbacks that only repeat -/

namespace Conduct

/-- Callbacks that are not kept only repeat: what they find at a node was found at a node before, by
callbacks that are kept. -/
def Repeats (tree : SyntaxTree) (c : Conduct) (rule : Rule) (kept : Subscription → Bool) : Prop :=
  ∀ id node, tree.node? id = some node →
    ∀ s ∈ rule.subscriptions, kept s = false → s.kind = node.kind → ∀ f ∈ c.findings node,
      ∃ a above, a < id ∧ tree.node? a = some above ∧ c.shades tree a = false ∧
        (∃ t ∈ rule.subscriptions, kept t = true ∧ t.kind = above.kind) ∧
          ∃ g ∈ c.findings above, g.range = f.range

/-- The calls of a rule that follows a conduct: one for each callback and each node of its kind that
is not left out. -/
theorem mem_records_iff {tree : SyntaxTree} {c : Conduct} {position : Nat} {active : ActiveRule}
    {i : CallRecord} :
    i ∈ c.records tree position active ↔
      ∃ id node s, tree.node? id = some node ∧ c.shades tree id = false ∧
        s ∈ active.rule.subscriptions ∧ s.kind = node.kind ∧
          i = c.recordOf position active id node s := by
  simp only [records, List.mem_flatMap, Prod.exists, SyntaxTree.mem_enumerated, recordsAt]
  constructor
  · rintro ⟨id, node, hnode, hi⟩
    split at hi
    · cases hi
    · rename_i hshades
      obtain ⟨s, hs, rfl⟩ := List.mem_map.1 hi
      obtain ⟨hs, hkind⟩ := List.mem_filter.1 hs
      exact ⟨id, node, s, hnode, by simpa using hshades, hs, by simpa using hkind, rfl⟩
  · rintro ⟨id, node, s, hnode, hshades, hs, hkind, rfl⟩
    refine ⟨id, node, hnode, ?_⟩
    rw [if_neg (by simp [hshades])]
    exact List.mem_map_of_mem (List.mem_filter.2 ⟨hs, decide_eq_true hkind⟩)

/-- The calls of a rule are in the order of the arena. Several callbacks may be called at one
node. -/
theorem pairwise_records (tree : SyntaxTree) (c : Conduct) (position : Nat) (active : ActiveRule) :
    (c.records tree position active).Pairwise fun i j => i.id ≤ j.id := by
  -- All calls for one entry are at its node.
  have hid : ∀ entry, ∀ i ∈ c.recordsAt tree position active entry, i.id = entry.1 := by
    intro entry i hi
    rw [recordsAt] at hi
    split at hi
    · cases hi
    · obtain ⟨s, -, rfl⟩ := List.mem_map.1 hi
      rfl
  rw [records, List.pairwise_flatMap]
  constructor
  · intro entry _
    exact List.pairwise_of_forall_mem_list fun i hi j hj => by
      rw [hid entry i hi, hid entry j hj]
  · refine tree.pairwise_enumerated.imp fun {a b} hlt i hi j hj => ?_
    rw [hid a i hi, hid b j hj]
    exact Nat.le_of_lt hlt

namespace Repeats

variable {file : SourceFile} {tree : SyntaxTree} {length : Nat} {c : Conduct} {rule : Rule}
  {kept : Subscription → Bool}

/-- Up to any node of the arena, the reports without the callbacks that only repeat come to the
same. The induction is on the number of nodes: a node where such a callback is called adds nothing
on either side, and at any other node both sides report the same. -/
theorem ofCalls_take (h : c.Repeats tree rule kept) (severity : Severity) (id : Nat) :
    Reporter.ofCalls
        ((tree.enumerated.take id).flatMap (c.reportsAt tree ⟨rule.keep kept, severity⟩)) =
      Reporter.ofCalls ((tree.enumerated.take id).flatMap (c.reportsAt tree ⟨rule, severity⟩)) := by
  induction id with
  | zero => rfl
  | succ id ih =>
      rw [List.take_add_one, SyntaxTree.getElem?_enumerated]
      cases hnode : tree.node? id with
      | none => simpa using ih
      | some node =>
          simp only [Option.map_some, Option.toList_some, List.flatMap_append, List.flatMap_cons,
            List.flatMap_nil, List.append_nil]
          by_cases hdropped : ∃ s ∈ rule.subscriptions, kept s = false ∧ s.kind = node.kind
          · -- All that is found here was found before, with these callbacks and without them.
            obtain ⟨s, hs, hkept, hkind⟩ := hdropped
            have hknown : ∀ r : Rule, r.descriptor = rule.descriptor →
                (∀ t ∈ rule.subscriptions, kept t = true → t ∈ r.subscriptions) →
                ∀ d ∈ c.reportsAt tree ⟨r, severity⟩ (id, node),
                  ∃ e ∈ (tree.enumerated.take id).flatMap (c.reportsAt tree ⟨r, severity⟩),
                    e.key = d.key := by
              intro r hdescriptor hsubscriptions d hd
              obtain ⟨-, -, f, hf, rfl⟩ := mem_reportsAt_iff.1 hd
              obtain ⟨a, above, hlt, habove, hshades, ⟨t, ht, htkept, htkind⟩, g, hg, hrange⟩ :=
                h id node hnode s hs hkept hkind f hf
              refine ⟨(⟨r, severity⟩ : ActiveRule).diagnostic g, List.mem_flatMap.2
                ⟨(a, above), SyntaxTree.mem_take_enumerated.2 ⟨hlt, habove⟩,
                  mem_reportsAt_iff.2 ⟨hshades, ⟨t, hsubscriptions t ht htkept, htkind⟩, g, hg,
                    rfl⟩⟩, ?_⟩
              simp only [Diagnostic.key, ActiveRule.diagnostic, hrange]
            rw [Reporter.ofCalls_append_known (hknown (rule.keep kept) rfl fun t ht htkept =>
                List.mem_filter.2 ⟨ht, htkept⟩),
              Reporter.ofCalls_append_known (hknown rule rfl fun t ht _ => ht), ih]
          · -- No callback for this node is missing.
            have hsame : c.reportsAt tree ⟨rule.keep kept, severity⟩ (id, node) =
                c.reportsAt tree ⟨rule, severity⟩ (id, node) := by
              have hfilter : (rule.keep kept).subscriptions.filter (·.kind = node.kind) =
                  rule.subscriptions.filter (·.kind = node.kind) := by
                rw [Rule.keep, List.filter_filter]
                refine List.filter_congr fun s hs => ?_
                by_cases hkind : s.kind = node.kind
                · have hkept : kept s = true := by
                    by_contra hkept
                    exact hdropped ⟨s, hs, by simpa using hkept, hkind⟩
                  simp [hkept]
                · simp [hkind]
              simp only [reportsAt, hfilter]
              rfl
            rw [hsame]
            exact Reporter.ofCalls_append_congr ih _

/-- In use alone, the rule comes to the same without the callbacks that only repeat. This is
`ofCalls_take` for the whole arena. -/
theorem reporter_walk_keep (h : c.Repeats tree rule kept) (hvalid : tree.validate length = .ok ())
    (hrule : rule.Follows file tree c) (hskips : ∀ node, c.skips node = false) {config : Config}
    {category : FileCategory} (huse : rule.InUse config category) :
    (walk file tree (Interest.build ⟨[rule.keep kept]⟩ config category)).reporter =
      (walk file tree (Interest.build ⟨[rule]⟩ config category)).reporter := by
  have hkept : (rule.keep kept).InUse config category := huse
  rw [reporter_walk_singleton hvalid hrule huse,
    reporter_walk_singleton hvalid (hrule.keep kept hskips) hkept]
  have htake := h.ofCalls_take (config.severityOf rule.descriptor) tree.enumerated.length
  rwa [List.take_length] at htake

/-- Whatever such a callback reports in a walk is dropped, in any catalog and whatever other rules
report: the finding was reported by a call of the same rule at an earlier node. -/
theorem not_isNew (h : c.Repeats tree rule kept) (hvalid : tree.validate length = .ok ())
    (hrule : rule.Follows file tree c) {interest : Interest} {severity : Severity}
    {earlier later : List CallRecord} {i : CallRecord}
    (hsplit : callRecords file tree interest = earlier ++ i :: later)
    (hactive : interest.rules[i.position]? = some ⟨rule, severity⟩)
    (hkept : kept i.subscriber.subscription = false) {d : Diagnostic} (hd : d ∈ i.reports) :
    ((Reporter.ofCalls (earlier.flatMap (·.reports))).report d).1 = false := by
  -- The calls of the rule alone, and where the call stands among them.
  have hrecords := callRecords_filter hvalid hactive hrule
  rw [hsplit, List.filter_append, List.filter_cons_of_pos (by simp)] at hrecords
  have hi : i ∈ c.records tree i.position ⟨rule, severity⟩ := by
    rw [← hrecords]
    simp
  obtain ⟨id, node, s, hnode, -, hs, hkind, heq⟩ := mem_records_iff.1 hi
  rw [heq] at hkept hd
  rw [reports_recordOf] at hd
  obtain ⟨f, hf, rfl⟩ := List.mem_map.1 hd
  obtain ⟨a, above, hlt, habove, hshades, ⟨t, ht, -, htkind⟩, g, hg, hrange⟩ :=
    h id node hnode s hs hkept hkind f hf
  have he : c.recordOf i.position ⟨rule, severity⟩ a above t ∈
      c.records tree i.position ⟨rule, severity⟩ :=
    mem_records_iff.2 ⟨a, above, t, habove, hshades, ht, htkind, rfl⟩
  have hordered := pairwise_records tree c i.position ⟨rule, severity⟩
  rw [← hrecords, List.pairwise_append, List.pairwise_cons] at hordered
  have hid : i.id = id := by rw [heq]; rfl
  -- A call at a node before this one was made earlier.
  have hearlier : c.recordOf i.position ⟨rule, severity⟩ a above t ∈ earlier := by
    rw [← hrecords] at he
    rcases List.mem_append.1 he with he | he
    · exact (List.mem_filter.1 he).1
    · exfalso
      have hle : i.id ≤ a := by
        rcases List.mem_cons.1 he with he | he
        · exact Nat.le_of_eq (by rw [← he]; rfl)
        · exact hordered.2.1.1 _ he
      exact absurd hlt (Nat.not_lt.2 (hid ▸ hle))
  rw [Reporter.report_ofCalls_known]
  refine ⟨(⟨rule, severity⟩ : ActiveRule).diagnostic g, List.mem_flatMap.2 ⟨_, hearlier, ?_⟩, ?_⟩
  · rw [reports_recordOf]
    exact List.mem_map_of_mem hg
  · simp only [Diagnostic.key, ActiveRule.diagnostic, hrange]

end Repeats

end Conduct

end Arborist
