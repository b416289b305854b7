import Arborist.Proofs.Engine.Findings
import Arborist.Proofs.Rules.CallText
import Arborist.Proofs.Rules.Preset
import Arborist.Proofs.Rules.Reading

/-!
# `Arborist.Proofs.Rules.Placeholder`: where placeholders are reported

The rule reports functions that are stubs and invocations of placeholder macros. Below a stub it
skips. So what it reports are the outermost of these nodes: those with no stub above them
(`IsOutermost`). A placeholder is never lost by that. It is outermost itself, or some stub above it
is, namely the outermost one. `reports_outermost_placeholders` says this of the walk and of a whole
analysis.
-/

set_option autoImplicit false

namespace Arborist.Rules.Placeholder

/-- The node invokes a placeholder macro, by its bare name or at the end of a path. -/
structure IsPlaceholder (node : SyntaxNode) : Prop where
  kind : node.kind = .macroCall ∨ node.kind = .macroStatement
  name : ∃ name base, node.name = some name ∧ (base = "todo" ∨ base = "unimplemented") ∧
    (name = base ∨ ∃ path, name = path ++ "::" ++ base)

/-- The node is a function whose body is a placeholder and nothing else, but for attributes and doc
comments. If it has several blocks, the last one is the body. -/
structure IsStub (tree : SyntaxTree) (node : SyntaxNode) : Prop where
  kind : node.kind = .function
  body : ∃ body only, ((tree.childNodes node).filter (·.kind = .block)).getLast? = some body ∧
    tree.operands body = [only] ∧ IsPlaceholder only

/-- The node is a stub or a placeholder, and no stub stands above it. -/
structure IsOutermost (tree : SyntaxTree) (id : NodeId) (node : SyntaxNode) : Prop where
  kind : IsStub tree node ∨ IsPlaceholder node
  outside : ∀ above ∈ tree.ancestorNodes id, ¬ IsStub tree above

/-! ### What the rule sees -/

/-- What the rule takes for a placeholder is an invocation of one of the two macros, under any
path. -/
theorem isSome_placeholder?_iff {node : SyntaxNode} :
    (placeholder? node).isSome = true ↔ IsPlaceholder node := by
  -- None of the two names has a colon.
  have hbase : ∀ {name base : String}, base ∈ macros →
      (macroBase name = base ↔ name = base ∨ ∃ path, name = path ++ "::" ++ base) := by
    intro name base hmem
    refine macroBase_eq_iff ?_
    rcases List.mem_pair.1 hmem with rfl | rfl <;> decide
  rw [placeholder?]
  split
  · -- The kind is right, so the name decides.
    rename_i hkind
    have hkind : node.kind = .macroCall ∨ node.kind = .macroStatement := by simpa using hkind
    cases hname : node.name with
    | none =>
        simp only [Option.map_none, Option.filter_none, Option.isSome_none, Bool.false_eq_true,
          false_iff]
        rintro ⟨-, name, base, hsome, -⟩
        rw [hname] at hsome
        cases hsome
    | some name =>
        rw [Option.map_some, Option.isSome_filter, Option.any_some, List.contains_iff_mem]
        constructor
        · intro hmem
          exact ⟨hkind, name, macroBase name, hname, List.mem_pair.1 hmem, (hbase hmem).1 rfl⟩
        · rintro ⟨-, other, base, hsome, hplaceholder, hpath⟩
          have hmem : base ∈ macros := List.mem_pair.2 hplaceholder
          rw [hname] at hsome
          cases hsome
          rw [(hbase hmem).2 hpath]
          exact hmem
  · rename_i hkind
    simp only [Option.isSome_none, Bool.false_eq_true, false_iff]
    rintro ⟨hplaceholder, -⟩
    exact hkind (by simpa using hplaceholder)

/-- The placeholder that is the whole body of a function. -/
def stub? (tree : SyntaxTree) (node : SyntaxNode) : Option String :=
  match ((tree.childNodes node).filter (·.kind = .block)).getLast?.map tree.operands with
  | some [only] => placeholder? only
  | _ => none

/-- On a valid tree the rule finds the body of a function and sees whether it is a placeholder. It
reads two operands at most, which is enough to know that there is only one. -/
theorem stub_eq {tree : SyntaxTree} {length : Nat} (hvalid : tree.validate length = .ok ())
    {node : SyntaxNode} (hnode : node ∈ tree.nodes) : stub tree node = .ok (stub? tree node) := by
  have hreadable : tree.Readable node.children.reverse := fun id hid =>
    SyntaxTree.readable_children hvalid hnode id (List.mem_reverse.1 hid)
  -- The rule looks for the block from the last child on, so it finds the last one.
  have hbody : tree.findNode (·.kind = .block) node.children.reverse =
      .ok ((tree.childNodes node).filter (·.kind = .block)).getLast? := by
    rw [SyntaxTree.findNode_eq _ hreadable, List.filterMap_reverse, ← List.head?_filter,
      List.filter_reverse, List.head?_reverse]
    rfl
  rw [stub, stub?, hbody]
  cases hlast : ((tree.childNodes node).filter (·.kind = .block)).getLast? with
  | none => rfl
  | some body =>
      have hmem := (List.mem_filter.1 (List.mem_of_getLast? hlast)).1
      have hoperands := SyntaxTree.takeOperands_children_eq hvalid 2
        (SyntaxTree.mem_nodes_of_mem_childNodes hmem)
      show (tree.takeOperands 2 body.children >>= _) = _
      rw [hoperands, Option.map_some]
      -- None, one, or more than one, of which two are read.
      match tree.operands body with
      | [] => rfl
      | [only] => rfl
      | _ :: _ :: _ => rfl

/-- A function has a stub for its body exactly if its last block holds a placeholder and nothing
else. -/
theorem isSome_stub?_iff {tree : SyntaxTree} {node : SyntaxNode} :
    (stub? tree node).isSome = true ↔
      ∃ body only, ((tree.childNodes node).filter (·.kind = .block)).getLast? = some body ∧
        tree.operands body = [only] ∧ IsPlaceholder only := by
  rw [stub?]
  cases hlast : ((tree.childNodes node).filter (·.kind = .block)).getLast? with
  | none => simp
  | some body =>
      rw [Option.map_some]
      match hoperands : tree.operands body with
      | [] => simp [hoperands]
      | [only] => simp [hoperands, isSome_placeholder?_iff]
      | _ :: _ :: _ => simp [hoperands]

/-! ### What the rule does -/

/-- What is reported at a function whose body is nothing but the macro `base`. -/
def stubFinding (node : SyntaxNode) (base : String) : Finding where
  range := node.range
  message := "function `" ++ node.name.getD "_" ++ "` is an unimplemented `" ++ base ++ "!` stub"

/-- What is reported at a call of the macro `base`. -/
def macroFinding (node : SyntaxNode) (base : String) : Finding where
  range := node.range
  message := descriptor.message.fill [("macro", base)]

/-- The rule reports stubs and skips below them, and it reports placeholders. -/
def conduct (tree : SyntaxTree) : Conduct where
  findings node :=
    if node.kind = .function then (stub? tree node).toList.map (stubFinding node)
    else (placeholder? node).toList.map (macroFinding node)
  skips node := node.kind = .function && (stub? tree node).isSome

/-- The rule skips below stubs and nowhere else. -/
theorem skips_iff {tree : SyntaxTree} {node : SyntaxNode} :
    (conduct tree).skips node = true ↔ IsStub tree node := by
  show (decide (node.kind = .function) && (stub? tree node).isSome) = true ↔ _
  rw [Bool.and_eq_true, decide_eq_true_eq, isSome_stub?_iff]
  exact ⟨fun h => ⟨h.1, h.2⟩, fun h => ⟨h.kind, h.body⟩⟩

/-- A finding is about the whole node, be it a function that is a stub or an invocation. -/
theorem range_of_mem_findings {tree : SyntaxTree} {node : SyntaxNode} {f : Finding}
    (hf : f ∈ (conduct tree).findings node) : f.range = node.range := by
  simp only [conduct] at hf
  split at hf
  · obtain ⟨base, -, rfl⟩ := List.mem_map.1 hf
    rfl
  · obtain ⟨base, -, rfl⟩ := List.mem_map.1 hf
    rfl

/-- There is something to find at stubs and at placeholders. A node is never both, since stubs are
functions and placeholders are invocations. -/
theorem exists_finding_iff {tree : SyntaxTree} {node : SyntaxNode} :
    (∃ f, f ∈ (conduct tree).findings node) ↔ IsStub tree node ∨ IsPlaceholder node := by
  have hexists : ∀ (found : Option String) (finding : String → Finding),
      (∃ f, f ∈ found.toList.map finding) ↔ found.isSome = true := by
    intro found finding
    cases found <;> simp
  by_cases hkind : node.kind = .function
  · -- A function is no invocation, and other nodes are no stubs.
    have hstub : IsStub tree node ↔ (stub? tree node).isSome = true := by
      rw [← skips_iff]
      simp [conduct, hkind]
    have hplaceholder : ¬ IsPlaceholder node := by
      intro h
      rcases h.kind with h | h <;> simp [hkind] at h
    rw [or_iff_left hplaceholder, hstub, ← hexists _ (stubFinding node)]
    simp only [conduct, hkind, if_true]
  · have hstub : ¬ IsStub tree node := fun h => hkind h.kind
    rw [or_iff_right hstub, ← isSome_placeholder?_iff, ← hexists _ (macroFinding node)]
    simp only [conduct, hkind, if_false]

/-- The rule has a callback for whatever it is to report: one for functions, and one each for macros
as expressions and as statements. -/
theorem exists_subscription {tree : SyntaxTree} {node : SyntaxNode}
    (h : IsStub tree node ∨ IsPlaceholder node) :
    ∃ s ∈ rule.subscriptions, s.kind = node.kind := by
  rcases h with h | h
  · exact ⟨_, List.mem_cons_self, h.kind.symm⟩
  · rcases h.kind with hkind | hkind
    · exact ⟨⟨.macroCall, "expression", onInvocation⟩, by simp [rule], hkind.symm⟩
    · exact ⟨⟨.macroStatement, "statement", onInvocation⟩, by simp [rule], hkind.symm⟩

/-- A node is within reach of the walk exactly if no stub stands above it. -/
theorem shades_eq_false_iff {tree : SyntaxTree} {id : NodeId} :
    (conduct tree).shades tree id = false ↔
      ∀ above ∈ tree.ancestorNodes id, ¬ IsStub tree above := by
  simp only [Conduct.shades, List.any_eq_false, skips_iff]

/-- The ranges that the rule reports are those of the outermost nodes. A node below a stub is in its
shade, and so it is not reported even if it is a placeholder itself. -/
theorem reports_iff {tree : SyntaxTree} {range : TextRange} :
    (conduct tree).Reports tree rule range ↔
      ∃ id node, tree.node? id = some node ∧ node.range = range ∧ IsOutermost tree id node := by
  constructor
  · rintro ⟨id, node, hnode, hshades, -, f, hf, rfl⟩
    exact ⟨id, node, hnode, (range_of_mem_findings hf).symm, exists_finding_iff.1 ⟨f, hf⟩,
      shades_eq_false_iff.1 hshades⟩
  · rintro ⟨id, node, hnode, rfl, houtermost⟩
    obtain ⟨f, hf⟩ := exists_finding_iff.2 houtermost.kind
    exact ⟨id, node, hnode, shades_eq_false_iff.2 houtermost.outside,
      exists_subscription houtermost.kind, f, hf, range_of_mem_findings hf⟩

section
variable {file : SourceFile} {tree : SyntaxTree} {id : NodeId} {node : SyntaxNode}

/-- At a function the rule tells what `conduct` says, whatever was reported before. On a valid tree
its search for the one invocation in the body does not fail. -/
theorem tells_onFunction {length : Nat} (hvalid : tree.validate length = .ok ())
    (hnode : tree.node? id = some node) (hkind : node.kind = .function) (severity : Severity) :
    (onFunction ⟨file, tree, id, node, severity⟩).Tells ((conduct tree).findings node)
      ((conduct tree).visit node) := by
  have hstub := stub_eq hvalid (SyntaxTree.mem_nodes_iff.2 ⟨id, hnode⟩)
  rw [onFunction]
  simp only [hstub, conduct, Conduct.visit, hkind, if_true, decide_true, Bool.true_and]
  cases stub? tree node with
  | none => exact .finish .proceed
  | some base => exact Reaction.tells_reportOne (stubFinding node base) .skipChildren

/-- At an invocation it does so too. It never skips there, since an invocation is no function. -/
theorem tells_onInvocation (hkind : node.kind ≠ .function) (severity : Severity) :
    (onInvocation ⟨file, tree, id, node, severity⟩).Tells ((conduct tree).findings node)
      ((conduct tree).visit node) := by
  rw [onInvocation]
  simp only [conduct, Conduct.visit, hkind, if_false, decide_false, Bool.false_and]
  cases placeholder? node with
  | none => exact .finish .proceed
  | some base => exact Reaction.tells_reportOne (macroFinding node base) .proceed

/-- All three callbacks do what `conduct` says, and the rule has a callback wherever it is to
skip. -/
theorem follows (file : SourceFile) {length : Nat} (hvalid : tree.validate length = .ok ()) :
    rule.Follows file tree (conduct tree) where
  tells := by
    intro s hs id node severity hnode hkind
    rcases List.mem_cons.1 hs with rfl | hs
    · exact tells_onFunction hvalid hnode hkind.symm severity
    · rcases List.mem_pair.1 hs with rfl | rfl
      · exact tells_onInvocation (by rw [← hkind]; decide) severity
      · exact tells_onInvocation (by rw [← hkind]; decide) severity
  hears := by
    intro node hskips
    exact ⟨_, List.mem_cons_self, (skips_iff.1 hskips).kind.symm⟩

end

/-- A stub or a placeholder is outermost, or it stands below a stub that is. Of the stubs above a
node the one nearest to the root has no stub above it. -/
theorem outermost_or_below {tree : SyntaxTree} {length : Nat}
    (hvalid : tree.validate length = .ok ()) {id : Nat} {node : SyntaxNode}
    (hnode : tree.node? id = some node) (hkind : IsStub tree node ∨ IsPlaceholder node) :
    IsOutermost tree id node ∨ ∃ a above, tree.node? a = some above ∧
      above ∈ tree.ancestorNodes id ∧ IsStub tree above ∧ IsOutermost tree a above := by
  have hid := SyntaxTree.lt_size_of_node? hnode
  by_cases hshades : (conduct tree).shades tree id = true
  · obtain ⟨a, above, hbelow, habove, hskips, houter⟩ :=
      Conduct.exists_outermost hvalid hid hshades
    have hstub := skips_iff.1 hskips
    exact .inr ⟨a, above, habove, (SyntaxTree.mem_ancestorNodes_iff hvalid hid).2
      ⟨a, hbelow, habove⟩, hstub, .inl hstub, shades_eq_false_iff.1 houter⟩
  · exact .inl ⟨hkind, shades_eq_false_iff.1 (Bool.not_eq_true _ ▸ hshades)⟩

/-- In use alone, the rule finds the outermost stubs and placeholders and nothing else, each range
once; the range of a placeholder or that of a stub around it is always among them. An analysis
reports what is found, except what the directives of the file allow. -/
theorem reports_outermost_placeholders (config : Config) (file : SourceFile) (tree : SyntaxTree)
    (henabled : config.Enables descriptor)
    (hvalid : tree.validate (Text.byteLength file.content.toList) = .ok ()) :
    let found := (walk file tree (Interest.build ⟨[rule]⟩ config file.category)).reporter.finalize
      file .none
    FindingPerRange "TL005" (fun range => ∃ id node, tree.node? id = some node ∧
      node.range = range ∧ IsOutermost tree id node) found ∧
    (∀ id node, tree.node? id = some node → IsPlaceholder node →
      (∃ d ∈ found, d.range = node.range) ∨
        ∃ above ∈ tree.ancestorNodes id, IsStub tree above ∧ ∃ d ∈ found, d.range = above.range) ∧
    ∃ catalog report, Catalog.build [rule] = .ok catalog ∧
      Engine.analyze ⟨catalog, config⟩ file tree = .ok report ∧
      ∀ d, d ∈ report.diagnostics ↔
        d ∈ found ∧ ¬ Reporter.Omits file (Suppressions.parse file.content) d := by
  intro found
  have huse : rule.InUse config file.category := ⟨rfl, henabled⟩
  have hfound : FindingPerRange "TL005" (fun range => ∃ id node, tree.node? id = some node ∧
      node.range = range ∧ IsOutermost tree id node) found := by
    have hreports := findingPerRange_walk_singleton hvalid (follows file hvalid) huse
    exact ⟨hreports.findings, hreports.once, fun range =>
      (hreports.exactly range).trans reports_iff⟩
  refine ⟨hfound, fun id node hnode hplaceholder => ?_, ?_⟩
  · -- A placeholder is outermost or has an outermost stub above it.
    rcases outermost_or_below hvalid hnode (.inr hplaceholder) with
      houter | ⟨a, above, habove, hmem, hstub, houter⟩
    · exact .inl ((hfound.exactly _).2 ⟨id, node, hnode, rfl, houter⟩)
    · exact .inr ⟨above, hmem, hstub, (hfound.exactly _).2 ⟨a, above, habove, rfl, houter⟩⟩
  · have hcatalog : Catalog.build [rule] = .ok ⟨[rule]⟩ :=
      Catalog.build_eq_ok_iff.2 ⟨by simpa using BuiltIn.placeholder.sound, by simp, rfl⟩
    obtain ⟨report, hreport⟩ := Engine.analyzed_of_valid ⟨⟨[rule]⟩, config⟩ hvalid
    exact ⟨⟨[rule]⟩, report, hcatalog, hreport.ok, fun d => hreport.mem_diagnostics_iff⟩

/-- A tree for `fn f(){fn g(){core::todo!{fn h(){unimplemented!()}};}std::unimplemented!()}`, with
what stands inside of the first macro. -/
def nestedStubs : SyntaxTree :=
  OrderedTree.arena <| .node .file ⟨0, 75⟩ none [.node .function ⟨0, 75⟩ (some "f") [
    .node .block ⟨6, 75⟩ none [
      .node .function ⟨7, 53⟩ (some "g") [.node .block ⟨13, 53⟩ none [
        .node .macroStatement ⟨14, 52⟩ (some "core::todo") [
          .node .function ⟨26, 50⟩ (some "h") [.node .block ⟨32, 50⟩ none [
            .node .macroCall ⟨33, 49⟩ (some "unimplemented") []]]]]],
      .node .macroCall ⟨53, 74⟩ (some "std::unimplemented") []]]]

/-- The stub `g` is reported and the placeholder behind it. The stub `h` is not, nor are the
placeholders inside of `g`. -/
theorem reports_outermost_placeholders_nested :
    let file := SourceFile.ofPath "src/lib.rs"
      ("fn f()\x7bfn g()\x7bcore::todo!\x7bfn h()\x7bunimplemented!()\x7d\x7d;\x7d" ++
        "std::unimplemented!()\x7d") ""
    let interest := Interest.build ⟨[rule]⟩ {} file.category
    let found := (walk file nestedStubs interest).reporter.finalize file .none
    Config.Enables {} descriptor ∧
      nestedStubs.validate (Text.byteLength file.content.toList) = .ok () ∧
      FindingPerRange "TL005" (fun range => ∃ id node, nestedStubs.node? id = some node ∧
        node.range = range ∧ IsOutermost nestedStubs id node) found ∧
      found.map (·.range) = [⟨7, 53⟩, ⟨53, 74⟩] := by
  intro file interest found
  have henabled : Config.Enables {} descriptor := Config.isEnabled_iff.1 (by decide)
  have hvalid : nestedStubs.validate (Text.byteLength file.content.toList) = .ok () :=
    eq_ok_of_toOption (by decide +kernel)
  -- The two findings are reported in the order that sorting leaves them in.
  have hranges : found.map (·.range) = [⟨7, 53⟩, ⟨53, 74⟩] := by
    dsimp only [found, interest, Reporter.finalize]
    rw [List.mergeSort_of_pairwise (by decide +kernel)]
    decide +kernel
  exact ⟨henabled, hvalid,
    (reports_outermost_placeholders {} file nestedStubs henabled hvalid).1, hranges⟩

end Arborist.Rules.Placeholder
