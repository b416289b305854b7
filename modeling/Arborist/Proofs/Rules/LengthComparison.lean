import Arborist.Proofs.Engine.Repetition
import Arborist.Proofs.Rules.Completion
import Arborist.Proofs.Rules.Preset

/-!
# `Arborist.Proofs.Rules.LengthComparison`: where lengths are compared with zero

The rule reports a comparison of a length with zero (`IsEmptinessTest`) in two ways: when the walk
comes to it, and when the walk comes to the call of `.len()`, where it looks at the node above.
Nodes above come first in the arena. So the second callback only repeats (`repeats`), and the rule
could do without it (`reducedRule`). `reports_emptiness_tests_once` says so of every catalog with
this rule, and that the rule finds one comparison for each range, the first one.
-/

set_option autoImplicit false

namespace Arborist.Rules.LengthComparison

/-- The node is a call of `.len()` on a receiver and nothing else, but for attributes and doc
comments. -/
structure IsLengthCall (tree : SyntaxTree) (node : SyntaxNode) : Prop where
  kind : node.kind = .methodCall
  name : node.name = some "len"
  receiver : ∃ receiver, tree.operands node = [receiver]

/-- The node is a literal zero: the digit, then any number of underscores, then the type, any number
of times. -/
structure IsZeroLiteral (node : SyntaxNode) : Prop where
  kind : node.kind = .numberLiteral
  name : ∃ literal underscores types, node.name = some literal ∧
    literal.toList = ('0' :: List.replicate underscores '_') ++
      (List.replicate types "usize".toList).flatten

/-- The node compares a length with zero, in either order; `negated` if they are to differ. -/
structure IsEmptinessTest (tree : SyntaxTree) (node : SyntaxNode) (negated : Bool) : Prop where
  kind : node.kind = .binary
  operator : node.name = some (if negated then "!=" else "==")
  operands : ∃ call zero rest, IsLengthCall tree call ∧ IsZeroLiteral zero ∧
    (tree.operands node = call :: zero :: rest ∨ tree.operands node = zero :: call :: rest)

/-! ### What the rule sees -/

/-- What the rule takes for a call of `.len()` is one. -/
theorem isLengthCall_iff {tree : SyntaxTree} {node : SyntaxNode} :
    isLengthCall tree node = true ↔ IsLengthCall tree node := by
  simp only [isLengthCall, Bool.and_eq_true, decide_eq_true_eq, List.length_eq_one_iff]
  exact ⟨fun h => ⟨h.1.1, h.1.2, h.2⟩, fun h => ⟨⟨h.kind, h.name⟩, h.receiver⟩⟩

/-- What the rule takes for a zero is written as `IsZeroLiteral` says. The type is cut off first and
then the underscores, as often as they stand there. -/
theorem isZero_iff {node : SyntaxNode} : isZero node = true ↔ IsZeroLiteral node := by
  have hliteral : ∀ literal : List Char,
      Text.dropEndAll ['_'] (Text.dropEndAll "usize".toList literal) = ['0'] ↔
        ∃ underscores types, literal = ('0' :: List.replicate underscores '_') ++
          (List.replicate types "usize".toList).flatten := by
    intro literal
    -- The underscores are cut off last, so they stand in front.
    rw [Text.dropEndAll_eq_iff (by decide) (by decide)]
    refine exists_congr fun underscores => ?_
    rw [List.flatten_replicate_singleton]
    refine Text.dropEndAll_eq_iff (by decide) ?_
    -- A digit and underscores do not end with the type.
    refine Option.eq_none_iff_forall_ne_some.2 fun rest hrest => ?_
    have hends := Text.dropEnd?_eq_some_iff.1 hrest
    have hmem : 'e' ∈ '0' :: List.replicate underscores '_' := by
      rw [← List.singleton_append, hends]
      simp
    simp [List.mem_replicate] at hmem
  rw [isZero, Bool.and_eq_true, decide_eq_true_eq, Option.any_eq_true]
  simp only [decide_eq_true_eq, hliteral]
  constructor
  · rintro ⟨hkind, literal, hname, underscores, types, heq⟩
    exact ⟨hkind, literal, underscores, types, hname, heq⟩
  · rintro ⟨hkind, literal, underscores, types, hname, heq⟩
    exact ⟨hkind, literal, hname, underscores, types, heq⟩

section
variable {tree : SyntaxTree} {length : Nat} (hvalid : tree.validate length = .ok ())
include hvalid

/-- Two nodes are a length and a zero exactly if each of them is what it should be; on a valid tree
the question has an answer. -/
theorem isLengthAndZero_eq {call : SyntaxNode} (hcall : call ∈ tree.nodes) (zero : SyntaxNode) :
    isLengthAndZero tree call zero = .ok (isLengthCall tree call && isZero zero) := by
  obtain ⟨asks, hasks, -⟩ := yields_asksLength hvalid hcall
  rw [isLengthAndZero, hasks, ← eq_isLengthCall_of_asksLength hasks]
  cases asks <;> rfl

/-- The rule misses no comparison of a length with zero: on a valid tree it finds the call, on
either side, and whether the two are to differ. Only the first two operands count, so further ones
do not disturb it. -/
theorem exists_comparison {node : SyntaxNode} {negated : Bool} (hnode : node ∈ tree.nodes)
    (h : IsEmptinessTest tree node negated) :
    ∃ call, comparison tree node = .ok (some (call, negated)) := by
  obtain ⟨call, zero, rest, hcall, hzero, horder⟩ := h.operands
  have hmem : ∀ n ∈ tree.operands node, n ∈ tree.nodes := fun n hn =>
    SyntaxTree.mem_nodes_of_mem_childNodes (List.mem_filter.1 hn).1
  have hfound : lengthOperand tree ((tree.operands node).take 2) = .ok (some call) := by
    have hboth : (isLengthCall tree call && isZero zero) = true := by
      rw [isLengthCall_iff.2 hcall, isZero_iff.2 hzero]
      rfl
    rcases horder with horder | horder
    · have hleft := isLengthAndZero_eq hvalid (hmem call (by simp [horder])) zero
      rw [hboth] at hleft
      rw [horder]
      show (isLengthAndZero tree call zero >>= _) = _
      rw [hleft]
      rfl
    · -- The literal on the left is no call.
      have hleft := isLengthAndZero_eq hvalid (hmem zero (by simp [horder])) call
      have hright := isLengthAndZero_eq hvalid (hmem call (by simp [horder])) zero
      have hliteral : isLengthCall tree zero = false := by
        simp [isLengthCall, hzero.kind]
      rw [hliteral, Bool.false_and] at hleft
      rw [hboth] at hright
      rw [horder]
      show (isLengthAndZero tree zero call >>= _) = _
      rw [hleft]
      show (isLengthAndZero tree call zero >>= _) = _
      rw [hright]
      rfl
  have hnegation : negation? node.name = some negated := by
    rw [h.operator]
    cases negated <;> rfl
  refine ⟨call, ?_⟩
  rw [comparison, if_pos h.kind, hnegation]
  show (tree.takeOperands 2 node.children >>= _) = _
  rw [SyntaxTree.takeOperands_children_eq hvalid 2 hnode]
  show (lengthOperand tree ((tree.operands node).take 2) >>= _) = _
  rw [hfound]
  rfl

end

/-- Whether the node compares a length with zero, and then whether they are to differ. -/
def test? (tree : SyntaxTree) (node : SyntaxNode) : Option Bool :=
  (comparison tree node).toOption.join.map (·.2)

/-- What the rule finds at a node is a comparison of a length with zero, and each such comparison is
found. For the first half, `comparesLength_of_comparison` reads the rule backwards. -/
theorem test?_eq_some_iff {tree : SyntaxTree} {length : Nat}
    (hvalid : tree.validate length = .ok ()) {node : SyntaxNode} (hnode : node ∈ tree.nodes)
    {negated : Bool} : test? tree node = some negated ↔ IsEmptinessTest tree node negated := by
  constructor
  · intro h
    -- Looking for a comparison succeeds on a valid tree, so `test?` does not hide an error.
    obtain ⟨found, hfound, -⟩ := yields_comparison hvalid hnode
    rw [test?, hfound] at h
    obtain ⟨⟨call, other⟩, rfl, rfl⟩ := Option.map_eq_some_iff.1 h
    obtain ⟨hkind, hoperator, hcall, zero, rest, hzero, horder⟩ :=
      comparesLength_of_comparison hfound
    exact ⟨hkind, hoperator, call, zero, rest, isLengthCall_iff.1 hcall, isZero_iff.1 hzero, horder⟩
  · intro h
    obtain ⟨call, hcall⟩ := exists_comparison hvalid hnode h
    rw [test?, hcall]
    rfl

/-! ### What the rule does -/

/-- What is reported at a comparison, with the call that says the same. -/
def finding (node : SyntaxNode) (negated : Bool) : Finding where
  range := node.range
  message := descriptor.message.fill []
  correction := some (if negated then "Use `!x.is_empty()`" else "Use `x.is_empty()`")

/-- What is reported at a node: one finding if it is such a comparison, and otherwise none. -/
def testFindings (tree : SyntaxTree) (node : SyntaxNode) : List Finding :=
  (test? tree node).toList.map (finding node)

/-- The rule reports comparisons, and from a call of `.len()` it reports the comparison above. -/
def conduct (tree : SyntaxTree) : Conduct where
  findings node :=
    if node.kind = .methodCall then
      if node.name = some "len" then
        (node.parent.bind tree.node?).toList.flatMap (testFindings tree)
      else []
    else testFindings tree node
  skips _ := false

section
variable {file : SourceFile} {tree : SyntaxTree} {length : Nat}

/-- The rule lets the walk go on below every node, so no node is hidden from it. -/
theorem shades_conduct (id : NodeId) : (conduct tree).shades tree id = false := by
  simp [Conduct.shades, conduct]

/-- The findings at a node are those for the comparison that it is. -/
theorem mem_testFindings_iff (hvalid : tree.validate length = .ok ()) {node : SyntaxNode}
    (hnode : node ∈ tree.nodes) {f : Finding} :
    f ∈ testFindings tree node ↔
      ∃ negated, IsEmptinessTest tree node negated ∧ f = finding node negated := by
  simp only [testFindings, List.mem_map, Option.mem_toList,
    test?_eq_some_iff hvalid hnode, @eq_comm _ f]

/-- At a comparison the rule reports the comparison itself. -/
theorem findings_of_kind_eq_binary {node : SyntaxNode} (hkind : node.kind = .binary) :
    (conduct tree).findings node = testFindings tree node := by
  simp [conduct, hkind]

/-- What the rule reports about a node does not depend on earlier reports, and it lets the walk go
on. -/
theorem tells_report (hvalid : tree.validate length = .ok ()) {node : SyntaxNode}
    (hnode : node ∈ tree.nodes) :
    (Reaction.ofExcept (report tree node)).Tells (testFindings tree node) .proceed := by
  obtain ⟨found, hfound, -⟩ := yields_comparison hvalid hnode
  rw [report, hfound, testFindings, test?, hfound]
  match found with
  | none => exact .finish .proceed
  | some (_, negated) => exact Reaction.tells_reportOne (finding node negated) .proceed

/-- At a call of `.len()` the rule tells the findings of the node above, and at other calls none.
The node above can be read, since the tree is valid. -/
theorem tells_onMethodCall (hvalid : tree.validate length = .ok ()) {id : NodeId}
    {node : SyntaxNode} (hnode : tree.node? id = some node) (hkind : node.kind = .methodCall)
    (severity : Severity) :
    (onMethodCall ⟨file, tree, id, node, severity⟩).Tells ((conduct tree).findings node)
      .proceed := by
  rw [onMethodCall]
  simp only [conduct, hkind, if_true]
  by_cases hname : node.name = some "len"
  · rw [if_pos hname, if_pos hname]
    cases hup : node.parent with
    | none => exact .finish .proceed
    | some up =>
        obtain ⟨above, habove⟩ :=
          SyntaxTree.readable_parent hvalid (SyntaxTree.mem_nodes_iff.2 ⟨id, hnode⟩) hup
        simp only [Option.bind_some, habove, Option.toList_some, List.flatMap_cons,
          List.flatMap_nil, List.append_nil, SyntaxTree.read_eq_ok_iff.2 habove]
        exact tells_report hvalid (SyntaxTree.mem_nodes_iff.2 ⟨up, habove⟩)
  · rw [if_neg hname, if_neg hname]
    exact .finish .proceed

/-- Both callbacks do what `conduct` says. The rule never skips, so there is nothing to say about
where it would. -/
theorem follows (file : SourceFile) (hvalid : tree.validate length = .ok ()) :
    rule.Follows file tree (conduct tree) where
  tells := by
    intro s hs id node severity hnode hkind
    rcases List.mem_pair.1 hs with rfl | rfl
    · rw [findings_of_kind_eq_binary hkind.symm]
      exact tells_report hvalid (SyntaxTree.mem_nodes_iff.2 ⟨id, hnode⟩)
    · exact tells_onMethodCall hvalid hnode hkind.symm severity
  hears := by
    intro node hskips
    cases hskips

/-- The second callback only repeats: the node above is a comparison that was reported when the walk
came to it. -/
theorem repeats (hvalid : tree.validate length = .ok ()) :
    (conduct tree).Repeats tree rule (·.slot ≠ "len-call") := by
  intro id node hnode s hs hdropped hkind f hf
  rcases List.mem_pair.1 hs with rfl | rfl
  · cases hdropped
  · simp only [conduct, ← hkind, if_true] at hf
    split at hf
    · -- What is found at a call of `.len()` is found at its parent.
      obtain ⟨above, hbind, hf⟩ := List.mem_flatMap.1 hf
      obtain ⟨up, hup, habove⟩ := Option.bind_eq_some_iff.1 (Option.mem_toList.1 hbind)
      have hmem := SyntaxTree.mem_nodes_iff.2 ⟨up, habove⟩
      obtain ⟨negated, htest, rfl⟩ := (mem_testFindings_iff hvalid hmem).1 hf
      refine ⟨up, above, SyntaxTree.parent_lt hvalid hnode hup, habove, shades_conduct up,
        ⟨_, List.mem_cons_self, rfl, htest.kind.symm⟩, finding above negated, ?_, rfl⟩
      rw [findings_of_kind_eq_binary htest.kind]
      exact hf
    · cases hf

end

/-- The rule without its second callback. -/
def reducedRule : Rule := rule.keep (·.slot ≠ "len-call")

/-- The diagnostic is about the first comparison with its range, and says what to use instead. -/
def ReportsFirst (tree : SyntaxTree) (d : Diagnostic) : Prop :=
  ∃ id node negated, tree.node? id = some node ∧ node.range = d.range ∧
    IsEmptinessTest tree node negated ∧
    (∀ j other, j < id → tree.node? j = some other → other.range = d.range →
      ∀ negated', ¬ IsEmptinessTest tree other negated') ∧
    d.message = "comparison of `.len()` with zero" ∧
    d.correction = some (if negated then "Use `!x.is_empty()`" else "Use `x.is_empty()`")

section
variable {tree : SyntaxTree} {length : Nat} (hvalid : tree.validate length = .ok ())
  {severity : Severity}
include hvalid

/-- With one callback the rule reports at a node exactly if the node is a comparison of a length
with zero. -/
theorem mem_reportsAt_reduced_iff {id : NodeId} {node : SyntaxNode}
    (hnode : tree.node? id = some node) {d : Diagnostic} :
    d ∈ (conduct tree).reportsAt tree ⟨reducedRule, severity⟩ (id, node) ↔
      ∃ negated, IsEmptinessTest tree node negated ∧
        d = (⟨reducedRule, severity⟩ : ActiveRule).diagnostic (finding node negated) := by
  have hmem := SyntaxTree.mem_nodes_iff.2 ⟨id, hnode⟩
  -- Only the callback for comparisons is left.
  have hsubscribed : (∃ s ∈ reducedRule.subscriptions, s.kind = node.kind) ↔
      node.kind = .binary := by
    simp [reducedRule, Rule.keep, rule, eq_comm]
  rw [Conduct.mem_reportsAt_iff, hsubscribed]
  constructor
  · rintro ⟨-, hkind, f, hf, rfl⟩
    rw [findings_of_kind_eq_binary hkind] at hf
    obtain ⟨negated, htest, rfl⟩ := (mem_testFindings_iff hvalid hmem).1 hf
    exact ⟨negated, htest, rfl⟩
  · rintro ⟨negated, htest, rfl⟩
    refine ⟨shades_conduct id, htest.kind, finding node negated, ?_, rfl⟩
    rw [findings_of_kind_eq_binary htest.kind]
    exact (mem_testFindings_iff hvalid hmem).2 ⟨negated, htest, rfl⟩

/-- The ranges that are reported are those of the comparisons, each once for its own node, as the
reduced rule has one callback. -/
theorem reports_reduced_iff {range : TextRange} :
    (conduct tree).Reports tree reducedRule range ↔
      ∃ id node negated, tree.node? id = some node ∧ node.range = range ∧
        IsEmptinessTest tree node negated := by
  rw [@Conduct.reports_range_iff tree _ ⟨reducedRule, .info⟩]
  constructor
  · rintro ⟨id, node, hnode, d, hd, rfl⟩
    obtain ⟨negated, htest, rfl⟩ := (mem_reportsAt_reduced_iff hvalid hnode).1 hd
    exact ⟨id, node, negated, hnode, rfl, htest⟩
  · rintro ⟨id, node, negated, hnode, rfl, htest⟩
    exact ⟨id, node, hnode, _, (mem_reportsAt_reduced_iff hvalid hnode).2 ⟨negated, htest, rfl⟩,
      rfl⟩

/-- The rule with one callback follows the same conduct. -/
theorem follows_reduced (file : SourceFile) : reducedRule.Follows file tree (conduct tree) :=
  (follows file hvalid).keep _ fun _ => rfl

section
variable {config : Config} {category : FileCategory} (huse : rule.InUse config category)
  (file : SourceFile)
include huse

/-- In use alone, the rule comes to the same without its second callback. -/
theorem reporter_walk_reduced :
    (walk file tree (Interest.build ⟨[reducedRule]⟩ config category)).reporter =
      (walk file tree (Interest.build ⟨[rule]⟩ config category)).reporter :=
  (repeats hvalid).reporter_walk_keep hvalid (follows file hvalid) (fun _ => rfl) huse

/-- What the rule with one callback reports is the first comparison with its range, because a later
report with the same range is dropped. -/
theorem reportsFirst_of_mem {d : Diagnostic}
    (hd : d ∈ (walk file tree (Interest.build ⟨[reducedRule]⟩ config category)).reporter.finalize
      file .none) : ReportsFirst tree d := by
  rw [reporter_walk_singleton hvalid (follows_reduced hvalid file) huse] at hd
  obtain ⟨e, he, -, rfl⟩ := Reporter.mem_finalize_iff.1 hd
  obtain ⟨id, node, hnode, he, hfirst⟩ := Conduct.first_of_mem_ofCalls he
  obtain ⟨negated, htest, rfl⟩ := (mem_reportsAt_reduced_iff hvalid hnode).1 he
  refine ⟨id, node, negated, hnode, rfl, htest, ?_, rfl, rfl⟩
  -- An earlier comparison with this range would have been reported under the same key.
  intro j other hlt hother hrange negated' htest'
  have hsame : other.range = node.range := hrange
  refine hfirst j other hlt hother _
    ((mem_reportsAt_reduced_iff hvalid hother).2 ⟨negated', htest', rfl⟩) ?_
  simp only [Diagnostic.key, ActiveRule.diagnostic, finding, hsame]

end

end

/-- In any catalog the rule finds the comparisons of a length with zero, each range once and with
the correction for the first comparison there. Whatever its second callback reports is dropped, and
without this callback every analysis reports the same. -/
theorem reports_emptiness_tests_once (before after : List Rule) {catalog : Catalog}
    (config : Config) (file : SourceFile) (tree : SyntaxTree)
    (hcatalog : Catalog.build (before ++ rule :: after) = .ok catalog)
    (henabled : config.Enables descriptor)
    (hvalid : tree.validate (Text.byteLength file.content.toList) = .ok ()) :
    let interest := Interest.build catalog config file.category
    let found := ((walk file tree interest).reporter.finalize file .none).filter (·.code = "TL003")
    (FindingPerRange "TL003" (fun range => ∃ id node negated, tree.node? id = some node ∧
      node.range = range ∧ IsEmptinessTest tree node negated) found ∧
      ∀ d ∈ found, ReportsFirst tree d) ∧
    (∀ earlier i later, callRecords file tree interest = earlier ++ i :: later →
      i.descriptor.code = "TL003" → i.subscriber.subscription.slot = "len-call" →
        i = .ofCall file tree i.id i.node i.subscriber
          (Reporter.ofCalls (earlier.flatMap (·.reports))) ∧
        ∀ d ∈ i.reports, ((Reporter.ofCalls (earlier.flatMap (·.reports))).report d).1 = false) ∧
    ∃ reduced, Catalog.build (before ++ reducedRule :: after) = .ok reduced ∧
      (∀ suppressions,
        (walk file tree (Interest.build reduced config file.category)).reporter.finalize file
          suppressions = (walk file tree interest).reporter.finalize file suppressions) ∧
      ∃ report report', Engine.analyze ⟨catalog, config⟩ file tree = .ok report ∧
        Engine.analyze ⟨reduced, config⟩ file tree = .ok report' ∧
        report'.diagnostics = report.diagnostics := by
  intro interest found
  have huse : rule.InUse config file.category := ⟨rfl, henabled⟩
  have halone := reporter_walk_reduced hvalid huse file
  obtain ⟨-, hdistinct, rfl⟩ := Catalog.build_eq_ok_iff.1 hcatalog
  have hmem : rule ∈ before ++ rule :: after := by simp
  refine ⟨?_, ?_, ?_⟩
  · -- Under its code the catalog has the findings of the rule alone, and so of the reduced rule.
    have hfound : found = (walk file tree
        (Interest.build ⟨[reducedRule]⟩ config file.category)).reporter.finalize file .none := by
      rw [halone, ← only_reporter_walk_build hdistinct hmem]
      exact (Reporter.finalize_only _ _ _ _).symm
    have hper := findingPerRange_walk_singleton hvalid (follows_reduced hvalid file) huse
    rw [hfound]
    refine ⟨⟨hper.findings, hper.once, fun range => ?_⟩, fun d hd => ?_⟩
    · exact (hper.exactly range).trans (reports_reduced_iff hvalid)
    · exact reportsFirst_of_mem hvalid huse file hd
  · intro earlier i later hsplit hcode hslot
    have hi : i ∈ callRecords file tree interest := by
      rw [hsplit]
      simp
    have hactive := active_of_code hdistinct hi hmem hcode
    refine ⟨inTurn_callRecords file tree interest earlier i later hsplit, fun d hd => ?_⟩
    exact (repeats hvalid).not_isNew hvalid (follows file hvalid) hsplit hactive (by simp [hslot])
      hd
  · have hreduced : Catalog.build (before ++ reducedRule :: after) =
        .ok ⟨before ++ reducedRule :: after⟩ :=
      Catalog.build_replace hcatalog rfl (BuiltIn.lengthComparison.sound.keep _)
    have hsame := finalize_walk_replace hdistinct (Catalog.build_eq_ok_iff.1 hreduced).2.1 rfl
      halone
    obtain ⟨report, hreport⟩ := Engine.analyzed_of_valid ⟨⟨before ++ rule :: after⟩, config⟩ hvalid
    obtain ⟨report', hreport'⟩ := Engine.analyzed_of_valid
      ⟨⟨before ++ reducedRule :: after⟩, config⟩ hvalid
    refine ⟨_, hreduced, hsame, report, report', hreport.ok, hreport'.ok, ?_⟩
    rw [hreport.diagnostics, hreport'.diagnostics, Engine.interest_eq, Engine.interest_eq]
    exact hsame _

/-- A tree for `fn f(){v.len()==0;0_usize!=w.len();g(x.len())}`. Two empty comparisons at its end
share a range, one inside of the other. -/
def severalTests : SyntaxTree :=
  OrderedTree.arena <| .node .file ⟨0, 46⟩ none [.node .function ⟨0, 46⟩ (some "f") [
    .node .block ⟨6, 46⟩ none [
      .node .binary ⟨7, 17⟩ (some "==") [
        .node .methodCall ⟨7, 14⟩ (some "len") [.node .path ⟨7, 8⟩ (some "v") []],
        .node .numberLiteral ⟨16, 17⟩ (some "0") []],
      .node .binary ⟨18, 34⟩ (some "!=") [
        .node .numberLiteral ⟨18, 25⟩ (some "0_usize") [],
        .node .methodCall ⟨27, 34⟩ (some "len") [.node .path ⟨27, 28⟩ (some "w") []]],
      .node .call ⟨35, 45⟩ none [
        .node .path ⟨35, 36⟩ (some "g") [],
        .node .methodCall ⟨37, 44⟩ (some "len") [.node .path ⟨37, 38⟩ (some "x") []]],
      .node .binary ⟨45, 45⟩ (some "!=") [
        .node .methodCall ⟨45, 45⟩ (some "len") [.node .path ⟨45, 45⟩ none []],
        .node .numberLiteral ⟨45, 45⟩ (some "0") [],
        .node .binary ⟨45, 45⟩ (some "==") [
          .node .methodCall ⟨45, 45⟩ (some "len") [.node .path ⟨45, 45⟩ none []],
          .node .numberLiteral ⟨45, 45⟩ (some "0") []]]]]]

/-- Each range is found once, the shared one with the correction for the outer comparison. The
second callback is called five times and has four reports dropped. -/
theorem reports_emptiness_tests_once_several :
    let file := SourceFile.ofPath "src/lib.rs"
      "fn f()\x7bv.len()==0;0_usize!=w.len();g(x.len())\x7d" ""
    let catalog : Catalog := ⟨[DebugMacro.rule, rule, Placeholder.rule]⟩
    let interest := Interest.build catalog {} file.category
    let found := ((walk file severalTests interest).reporter.finalize file .none).filter
      (·.code = "TL003")
    Catalog.build [DebugMacro.rule, rule, Placeholder.rule] = .ok catalog ∧
      Config.Enables {} descriptor ∧
      severalTests.validate (Text.byteLength file.content.toList) = .ok () ∧
      FindingPerRange "TL003" (fun range => ∃ id node negated, severalTests.node? id = some node ∧
        node.range = range ∧ IsEmptinessTest severalTests node negated) found ∧
      found.map (fun d => (d.range, d.correction)) =
        [(⟨7, 17⟩, some "Use `x.is_empty()`"), (⟨18, 34⟩, some "Use `!x.is_empty()`"),
          (⟨45, 45⟩, some "Use `!x.is_empty()`")] ∧
      ((callRecords file severalTests interest).filter
        (·.subscriber.subscription.slot = "len-call")).map (·.reports.length) =
          [1, 1, 0, 1, 1] := by
  intro file catalog interest found
  have hcatalog : Catalog.build [DebugMacro.rule, rule, Placeholder.rule] = .ok catalog := by
    refine Catalog.build_eq_ok_iff.2 ⟨?_, ?_, rfl⟩
    · simp [BuiltIn.debugMacro.sound, BuiltIn.lengthComparison.sound, BuiltIn.placeholder.sound]
    · exact List.Pairwise.of_cons (Preset.rules_distinct .recommended {})
  have henabled : Config.Enables {} descriptor := Config.isEnabled_iff.1 (by decide)
  have hvalid : severalTests.validate (Text.byteLength file.content.toList) = .ok () :=
    eq_ok_of_toOption (by decide +kernel)
  have hfound : found.map (fun d => (d.range, d.correction)) =
      [(⟨7, 17⟩, some "Use `x.is_empty()`"), (⟨18, 34⟩, some "Use `!x.is_empty()`"),
        (⟨45, 45⟩, some "Use `!x.is_empty()`")] := by
    dsimp only [found, Reporter.finalize]
    -- The findings come in their final order already, so nothing need be sorted in the kernel.
    rw [List.mergeSort_of_pairwise (by decide +kernel)]
    decide +kernel
  have htests := reports_emptiness_tests_once [DebugMacro.rule] [Placeholder.rule] {} file
    severalTests hcatalog henabled hvalid
  exact ⟨hcatalog, henabled, hvalid, htests.1.1, hfound, by decide +kernel⟩

end Arborist.Rules.LengthComparison
