import Arborist.Proofs.Engine.Attribution
import Arborist.Proofs.Rules.SafeFix

/-!
# `Arborist.Proofs.Rules.Completion`: on a valid tree no rule fails

A rule follows links and cuts texts, and any of these may break it down. On a valid tree none does.
`Yields` says of a computation that it succeeds and what its result is like; it goes through
sequences of steps (`Yields.bind`), so each function of a rule has one short lemma.

`Rule.Completes` is what they add up to: whatever node a callback is called at, it comes to an end
and reports places inside the source only, and whatever diagnostic a rule is asked about, it has an
answer. The rules there are have this on every valid tree, under any settings (`BuiltIn.completes`).
An analysis with such rules counts no failures and reports findings only
(`Engine.Analyzed.of_completes`).
-/

set_option autoImplicit false

namespace Arborist

open Text

/-! ### Computations that succeed -/

/-- The computation succeeds with a result that satisfies `P`. -/
def Yields {ε α : Type} (x : Except ε α) (P : α → Prop) : Prop := ∃ a, x = .ok a ∧ P a

namespace Yields

variable {ε α β : Type} {x : Except ε α} {P : α → Prop}

/-- A computation with a known result. -/
theorem of_eq {a : α} (h : x = .ok a) (hP : P a) : Yields x P := ⟨a, h, hP⟩

/-- A result without any step. -/
theorem pure {a : α} (h : P a) : Yields (Pure.pure a : Except ε α) P := ⟨a, rfl, h⟩

/-- A step and what comes behind it, which may use what is known of the first result. -/
theorem bind {f : α → Except ε β} {Q : β → Prop} (h : Yields x P)
    (hf : ∀ a, P a → Yields (f a) Q) : Yields (x >>= f) Q := by
  obtain ⟨a, rfl, ha⟩ := h
  exact hf a ha

end Yields

/-- The range lies in a text of `length` bytes. -/
def TextRange.Inside (length : Nat) (r : TextRange) : Prop := r.start ≤ r.stop ∧ r.stop ≤ length

/-- On a valid tree the range of every node lies in the source. -/
theorem SyntaxTree.range_inside {tree : SyntaxTree} {length : Nat}
    (hvalid : tree.validate length = .ok ()) {node : SyntaxNode} (hnode : node ∈ tree.nodes) :
    node.range.Inside length :=
  have hfits := fitsSource_of_validate hvalid
  ⟨hfits.ordered node hnode, hfits.bounded node hnode⟩

/-! ### Reactions that come to an end -/

namespace Reaction

/-- The reaction does not fail, and what it reports lies in a text of `length` bytes. -/
inductive Completes (length : Nat) : Reaction → Prop where
  | finish (visit : Visit) : Completes length (.finish visit)
  | report {finding : Finding} {next : Bool → Reaction} (hrange : finding.range.Inside length)
      (hnext : ∀ isNew, Completes length (next isNew)) : Completes length (.report finding next)

variable {length : Nat}

/-- A report about a range in the source is a reaction that comes to an end. -/
theorem completes_reportOne {finding : Finding} (h : finding.range.Inside length) (visit : Visit) :
    (reportOne finding visit).Completes length :=
  .report h fun _ => .finish visit

/-- So is what a computation yields, if it yields such a reaction. -/
theorem completes_ofExcept {x : Except Failure Reaction} (h : Yields x (Completes length)) :
    (ofExcept x).Completes length := by
  obtain ⟨reaction, rfl, hreaction⟩ := h
  exact hreaction

/-- A reaction that completes runs to its end, whatever the reporter says to its reports. -/
theorem Completes.run_ok {reaction : Reaction} (h : reaction.Completes length)
    (active : ActiveRule) (r : Reporter) : ∃ visit, (reaction.run active r).2 = .ok visit := by
  induction h generalizing r with
  | finish visit => exact ⟨visit, rfl⟩
  | report hrange hnext ih =>
      rw [run_report]
      exact ih _ _

/-- What it reports on the way lies in the source, whatever its reports are answered. -/
theorem Completes.inside_of_mem_reports {reaction : Reaction} (h : reaction.Completes length)
    {active : ActiveRule} {r : Reporter} {d : Diagnostic} (hd : d ∈ reaction.reports active r) :
    d.range.Inside length := by
  induction h generalizing r with
  | finish visit => cases hd
  | report hrange hnext ih =>
      rcases List.mem_cons.1 hd with rfl | hd
      · exact hrange
      · exact ih _ hd

end Reaction

/-- On this tree every callback of the rule comes to an end, and every request for fixes has an
answer. -/
structure Rule.Completes (file : SourceFile) (tree : SyntaxTree) (rule : Rule) : Prop where
  reacts : ∀ subscription ∈ rule.subscriptions, ∀ (id : NodeId) (node : SyntaxNode)
    (severity : Severity), tree.node? id = some node →
      (subscription.callback ⟨file, tree, id, node, severity⟩).Completes
        (byteLength file.content.toList)
  proposes : ∀ d, (rule.propose file tree d).isSome = true

/-! ### The rules -/

namespace Rules

variable {file : SourceFile} {tree : SyntaxTree} {length : Nat}

section
variable (hvalid : tree.validate length = .ok ()) {node : SyntaxNode}
include hvalid

/-- The search upwards for a marked item succeeds, since every parent is there. -/
theorem yields_standsInMarked {id : NodeId} (hnode : tree.node? id = some node)
    (kinds : List NodeKind) (fits : String → Bool) :
    Yields (standsInMarked tree kinds fits node) fun _ => True :=
  .of_eq (standsInMarked_eq hvalid kinds fits hnode) trivial

/-- The first operands of a node can be read, and they are nodes of the tree. -/
theorem yields_takeOperands (count : Nat) (hnode : node ∈ tree.nodes) :
    Yields (tree.takeOperands count node.children) fun found => ∀ n ∈ found, n ∈ tree.nodes := by
  refine .of_eq (SyntaxTree.takeOperands_children_eq hvalid count hnode) fun n hn => ?_
  exact SyntaxTree.mem_nodes_of_mem_childNodes (List.mem_of_mem_filter (List.mem_of_mem_take hn))

namespace UnwrapExpect

/-- A finding about a call can be made. For `unwrap` the rule reads the receiver first, to see
whether it is a partial comparison. -/
theorem yields_findingFor (hnode : node ∈ tree.nodes) (method : String) :
    Yields (findingFor tree node method) fun finding => finding.range = node.range := by
  unfold findingFor
  split
  · have hfollows : Yields (followsPartialCmp tree node) fun _ => True := by
      refine (yields_takeOperands hvalid 1 hnode).bind fun found _ => ?_
      cases found <;> exact .pure trivial
    refine hfollows.bind fun follows _ => ?_
    cases follows <;> exact .pure rfl
  · exact .pure rfl

/-- Whether the settings and the attributes permit a call can be found out. The second question is
asked only if the answer to the first leaves it open. -/
theorem yields_permits (r : UnwrapExpect) {id : NodeId} (hnode : tree.node? id = some node) :
    Yields (r.permits tree node) fun _ => True := by
  have hrest : ∀ inTests : Bool, Yields (if inTests then pure true else
      allowedByAttribute tree node ["clippy::unwrap_used", "clippy::expect_used"])
      fun _ => True := by
    intro inTests
    cases inTests with
    | true => exact .pure trivial
    | false => exact yields_standsInMarked hvalid hnode _ _
  unfold permits
  split
  · exact (yields_standsInMarked hvalid hnode _ _).bind fun inTests _ => hrest inTests
  · exact hrest false

end UnwrapExpect

namespace LengthComparison

/-- Whether a node asks for a length can be found out. -/
theorem yields_asksLength (hnode : node ∈ tree.nodes) :
    Yields (asksLength tree node) fun _ => True := by
  unfold asksLength
  split
  · exact (yields_takeOperands hvalid _ hnode).bind fun _ _ => .pure trivial
  · exact .pure trivial

/-- So can whether two nodes are a length and a zero. -/
theorem yields_isLengthAndZero {call : SyntaxNode} (hcall : call ∈ tree.nodes) (zero : SyntaxNode) :
    Yields (isLengthAndZero tree call zero) fun _ => True := by
  refine (yields_asksLength hvalid hcall).bind fun asks _ => ?_
  cases asks <;> exact .pure trivial

/-- So can which of two operands is the length. The second order is tried if the first one does not
fit. -/
theorem yields_lengthOperand {operands : List SyntaxNode} (h : ∀ n ∈ operands, n ∈ tree.nodes) :
    Yields (lengthOperand tree operands) fun _ => True := by
  match operands, h with
  | [], _ => exact .pure trivial
  | [_], _ => exact .pure trivial
  | left :: right :: _, h =>
      refine (yields_isLengthAndZero hvalid (h left (by simp)) right).bind fun onLeft _ => ?_
      cases onLeft with
      | true => exact .pure trivial
      | false =>
          refine (yields_isLengthAndZero hvalid (h right (by simp)) left).bind fun onRight _ => ?_
          cases onRight <;> exact .pure trivial

/-- Whether a node is a comparison of a length with zero can be found out; nodes that are no binary
operators are not looked at any further. -/
theorem yields_comparison (hnode : node ∈ tree.nodes) :
    Yields (comparison tree node) fun _ => True := by
  unfold comparison
  split
  · split
    · exact .pure trivial
    · refine (yields_takeOperands hvalid 2 hnode).bind fun found hfound => ?_
      exact (yields_lengthOperand hvalid hfound).bind fun _ _ => .pure trivial
  · exact .pure trivial

/-- The report about a node comes to an end and lies in the source. -/
theorem yields_report (hnode : node ∈ tree.nodes) :
    Yields (report tree node) (Reaction.Completes length) := by
  refine (yields_comparison hvalid hnode).bind fun found _ => ?_
  cases found with
  | none => exact .pure (.finish _)
  | some found =>
      exact .pure (Reaction.completes_reportOne (SyntaxTree.range_inside hvalid hnode) _)

/-- A proposal for a diagnostic can be made. The length of the receiver is that of a front part of
the call, so cutting it off its text cannot fail. -/
theorem yields_propose (file : SourceFile) (d : Diagnostic) :
    Yields (propose file tree d) fun _ => True := by
  unfold propose
  split
  · exact .pure trivial
  · rename_i id node hnode
    refine (yields_comparison hvalid (SyntaxTree.of_nodeAt? hnode).1).bind fun found _ => ?_
    match found with
    | none => exact .pure trivial
    | some (call, negated) =>
        dsimp only
        split
        · exact .pure trivial
        · rename_i receiverLength hlength
          obtain ⟨receiver, -, hfront⟩ := front_eq hlength
          rw [hfront]
          exact .pure trivial

end LengthComparison

/-- Whether an item lacks documentation can be found out: whether it is public, whether it is
documented and whether it stands in test code, in this order, as far as necessary. -/
theorem DocComment.yields_lacksDocs {id : NodeId} (hnode : tree.node? id = some node) :
    Yields (lacksDocs tree node) fun _ => True := by
  have hfind : ∀ fits, Yields (tree.findNode fits node.children) fun _ => True := fun fits =>
    .of_eq (SyntaxTree.findNode_children_eq hvalid fits (SyntaxTree.mem_nodes_iff.2 ⟨id, hnode⟩))
      trivial
  have hpublic : Yields (isPublic tree node) fun _ => True :=
    (hfind _).bind fun _ _ => .pure trivial
  have hdocumented : Yields (isDocumented tree node) fun _ => True :=
    (hfind _).bind fun _ _ => .pure trivial
  refine hpublic.bind fun isPublic _ => ?_
  cases isPublic with
  | false => exact .pure trivial
  | true =>
      refine hdocumented.bind fun isDocumented _ => ?_
      cases isDocumented with
      | true => exact .pure trivial
      | false =>
          exact (yields_standsInMarked hvalid hnode _ _).bind fun _ _ => .pure trivial

/-- Whether a function is a stub can be found out from the last block among its children and the
first operands in it. -/
theorem Placeholder.yields_stub (hnode : node ∈ tree.nodes) :
    Yields (stub tree node) fun _ => True := by
  have hreadable : tree.Readable node.children.reverse := fun id hid =>
    SyntaxTree.readable_children hvalid hnode id (List.mem_reverse.1 hid)
  have hbody : Yields (tree.findNode (·.kind = .block) node.children.reverse)
      fun found => ∀ body ∈ found, body ∈ tree.nodes := by
    refine .of_eq (SyntaxTree.findNode_eq _ hreadable) fun body hfound => ?_
    obtain ⟨id, -, hid⟩ := List.mem_filterMap.1 (List.mem_of_find?_eq_some hfound)
    exact SyntaxTree.mem_nodes_iff.2 ⟨id, hid⟩
  refine hbody.bind fun found hfound => ?_
  cases found with
  | none => exact .pure trivial
  | some body =>
      refine (yields_takeOperands hvalid 2 (hfound body rfl)).bind fun operands _ => ?_
      -- Each of these ends in an answer; it does not matter which.
      match operands with
      | [] => exact .pure trivial
      | [_] => exact .pure trivial
      | _ :: _ :: _ => exact .pure trivial

end

/-- The text of a range is no longer than the range, and empty if the range cuts into a
character. -/
theorem byteLength_text_le (file : SourceFile) (range : TextRange) :
    byteLength (file.text range).toList ≤ range.stop - range.start := by
  rw [SourceFile.text, slice?]
  cases hslice : sliceChars file.content.toList range.start range.stop with
  | none => simp
  | some chars =>
      obtain ⟨front, rest, -, hfront, hstop⟩ := sliceChars_eq_some_iff.1 hslice
      simp only [Option.map_some, Option.getD_some, String.toList_ofList]
      omega

/-- The range of an invocation lies where the range of its statement does, since what is cut off
stands at its end. -/
theorem DebugMacro.invocationRange_inside {range : TextRange} (h : range.Inside length)
    (file : SourceFile) : (invocationRange range (file.text range)).Inside length := by
  have htext := byteLength_text_le file range
  -- What is left is a front part of the text: white space, a semicolon and more white space are cut
  -- off.
  have hcall : Text.trimEnd ((Text.dropEnd? [';'] (Text.trimEnd (file.text range).toList)).getD
      (Text.trimEnd (file.text range).toList)) <+: (file.text range).toList := by
    refine (prefix_trimEnd _).trans ?_
    cases hcut : Text.dropEnd? [';'] (Text.trimEnd (file.text range).toList) with
    | none => exact prefix_trimEnd _
    | some rest => exact (prefix_of_dropEnd? hcut).trans (prefix_trimEnd _)
  obtain ⟨rest, hrest⟩ := hcall
  have hle := congrArg byteLength hrest
  rw [byteLength_append] at hle
  obtain ⟨hordered, hbounded⟩ := h
  simp only [invocationRange, TextRange.Inside]
  omega

section
variable (hvalid : tree.validate (byteLength file.content.toList) = .ok ()) {id : NodeId}
  {node : SyntaxNode} (hnode : tree.node? id = some node) (severity : Severity)
include hvalid hnode

/-- The callback of the rule about `unwrap` and `expect` comes to an end. Its questions about the
node, whether it is permitted and what it is called on, have answers on a valid tree. -/
theorem UnwrapExpect.completes_onMethodCall (r : UnwrapExpect) :
    (r.onMethodCall ⟨file, tree, id, node, severity⟩).Completes
      (byteLength file.content.toList) := by
  have hmem := SyntaxTree.mem_nodes_iff.2 ⟨id, hnode⟩
  unfold onMethodCall
  split
  · exact .finish _
  · rename_i method _
    refine Reaction.completes_ofExcept ?_
    refine (yields_permits hvalid r hnode).bind fun permits _ => ?_
    cases permits with
    | true => exact .pure (.finish _)
    | false =>
        refine (yields_findingFor hvalid hmem method).bind fun finding hrange => ?_
        refine .pure (Reaction.completes_reportOne ?_ _)
        -- The finding has the range of the node, which lies in the source.
        rw [hrange]
        exact SyntaxTree.range_inside hvalid hmem

/-- The callback about debugging macros comes to an end. It asks the tree nothing, and its range
lies inside that of the node. -/
theorem DebugMacro.completes_onInvocation :
    (onInvocation ⟨file, tree, id, node, severity⟩).Completes (byteLength file.content.toList) := by
  have hinside := SyntaxTree.range_inside hvalid (SyntaxTree.mem_nodes_iff.2 ⟨id, hnode⟩)
  simp only [onInvocation]
  split
  · exact .finish _
  · split
    · exact Reaction.completes_reportOne (invocationRange_inside hinside file) _
    · exact .finish _

/-- The callback for comparisons comes to an end. -/
theorem LengthComparison.completes_onBinary :
    (onBinary ⟨file, tree, id, node, severity⟩).Completes (byteLength file.content.toList) :=
  Reaction.completes_ofExcept (yields_report hvalid (SyntaxTree.mem_nodes_iff.2 ⟨id, hnode⟩))

/-- The callback for calls of `.len()` comes to an end. It reads the parent of the call, which is
there. -/
theorem LengthComparison.completes_onMethodCall :
    (onMethodCall ⟨file, tree, id, node, severity⟩).Completes (byteLength file.content.toList) := by
  have hmem := SyntaxTree.mem_nodes_iff.2 ⟨id, hnode⟩
  unfold onMethodCall
  split
  · split
    · rename_i up hup
      obtain ⟨parent, hparent⟩ := SyntaxTree.readable_parent hvalid hmem hup
      refine Reaction.completes_ofExcept ?_
      refine (Yields.of_eq (P := (· ∈ tree.nodes)) (SyntaxTree.read_eq_ok_iff.2 hparent) ?_).bind
        fun found hfound => yields_report hvalid hfound
      exact SyntaxTree.mem_nodes_iff.2 ⟨up, hparent⟩
    · exact .finish _
  · exact .finish _

/-- The callback about documentation comes to an end. Whether the item lacks documentation can be
told on a valid tree. -/
theorem DocComment.completes_onItem :
    (onItem ⟨file, tree, id, node, severity⟩).Completes (byteLength file.content.toList) := by
  have hinside := SyntaxTree.range_inside hvalid (SyntaxTree.mem_nodes_iff.2 ⟨id, hnode⟩)
  refine Reaction.completes_ofExcept ?_
  refine (yields_lacksDocs hvalid hnode).bind fun lacks _ => ?_
  cases lacks with
  | true => exact .pure (Reaction.completes_reportOne hinside _)
  | false => exact .pure (.finish _)

/-- The callback about functions that are stubs comes to an end. Whether a function is one can be
told on a valid tree. -/
theorem Placeholder.completes_onFunction :
    (onFunction ⟨file, tree, id, node, severity⟩).Completes (byteLength file.content.toList) := by
  have hmem := SyntaxTree.mem_nodes_iff.2 ⟨id, hnode⟩
  refine Reaction.completes_ofExcept ?_
  refine (yields_stub hvalid hmem).bind fun found _ => ?_
  cases found with
  | none => exact .pure (.finish _)
  | some base =>
      exact .pure (Reaction.completes_reportOne (SyntaxTree.range_inside hvalid hmem) _)

/-- The callback about placeholder macros comes to an end. -/
theorem Placeholder.completes_onInvocation :
    (onInvocation ⟨file, tree, id, node, severity⟩).Completes (byteLength file.content.toList) := by
  have hinside := SyntaxTree.range_inside hvalid (SyntaxTree.mem_nodes_iff.2 ⟨id, hnode⟩)
  unfold onInvocation
  split
  · exact .finish _
  · exact Reaction.completes_reportOne hinside _

end

/-- On a valid tree no rule fails, whatever its settings are. One case for each rule, and in it one
for each of its callbacks; only one rule makes proposals by reading the tree. -/
theorem BuiltIn.completes {rule : Rule} (h : BuiltIn rule)
    (hvalid : tree.validate (byteLength file.content.toList) = .ok ()) :
    rule.Completes file tree := by
  cases h with
  | unwrapExpect settings =>
      refine ⟨List.forall_mem_singleton.2 fun id node severity hnode => ?_, fun _ => rfl⟩
      exact UnwrapExpect.completes_onMethodCall hvalid hnode severity settings
  | debugMacro =>
      refine ⟨fun subscription hmem id node severity hnode => ?_, fun _ => rfl⟩
      -- The same callback stands in both slots.
      have hinvocation := DebugMacro.completes_onInvocation hvalid hnode severity
      rcases List.mem_pair.1 hmem with rfl | rfl
      · exact hinvocation
      · exact hinvocation
  | lengthComparison =>
      refine ⟨fun subscription hmem id node severity hnode => ?_, fun d => ?_⟩
      · rcases List.mem_pair.1 hmem with rfl | rfl
        · exact LengthComparison.completes_onBinary hvalid hnode severity
        · exact LengthComparison.completes_onMethodCall hvalid hnode severity
      · obtain ⟨proposals, hproposals, -⟩ := LengthComparison.yields_propose hvalid file d
        show (LengthComparison.propose file tree d).toOption.isSome = true
        rw [hproposals]
        rfl
  | docComment settings =>
      refine ⟨fun subscription hmem id node severity hnode => ?_, fun _ => rfl⟩
      obtain ⟨kind, -, rfl⟩ := List.mem_map.1 hmem
      exact DocComment.completes_onItem hvalid hnode severity
  | placeholder =>
      refine ⟨fun subscription hmem id node severity hnode => ?_, fun _ => rfl⟩
      have hinvocation := Placeholder.completes_onInvocation hvalid hnode severity
      rcases List.mem_cons.1 hmem with rfl | hmem
      · exact Placeholder.completes_onFunction hvalid hnode severity
      · rcases List.mem_pair.1 hmem with rfl | rfl
        · exact hinvocation
        · exact hinvocation

end Rules

/-! ### Analyses without failures -/

/-- The record is that of a call of its callback at its node. -/
def CallRecord.Genuine (file : SourceFile) (tree : SyntaxTree) (i : CallRecord) : Prop :=
  ∃ r, i = .ofCall file tree i.id i.node i.subscriber r

/-- What is recorded of a walk are calls. This is an invariant of the recorded walk, to which each
step adds a call. -/
theorem genuine_of_mem_callRecords {file : SourceFile} {tree : SyntaxTree} {interest : Interest}
    {i : CallRecord} (hi : i ∈ callRecords file tree interest) : i.Genuine file tree := by
  suffices hall : ∀ i ∈ (recorded file tree interest).records, i.Genuine file tree from hall i hi
  refine @recorded_invariant file tree interest (fun k => ∀ i ∈ k.records, i.Genuine file tree)
    (List.forall_mem_nil _) (fun k hk => hk) fun k id node hk _ s _ _ => ?_
  rw [List.forall_mem_append, List.forall_mem_singleton]
  exact ⟨hk, k.walk.reporter, rfl⟩

/-- A call of a rule that completes does not fail, and its findings lie in the source. The call was
made at a node of the tree, for a callback of the rule. -/
theorem CallRecord.of_completes {file : SourceFile} {tree : SyntaxTree} {interest : Interest}
    {i : CallRecord} (hi : i ∈ callRecords file tree interest)
    (hrule : i.subscriber.active.rule.Completes file tree) :
    i.error? = none ∧ ∀ d ∈ i.findings, d.range.Inside (byteLength file.content.toList) := by
  obtain ⟨hnode, hsubscriber⟩ := callRecords_faithful.subscribed i hi
  obtain ⟨-, hsubscription, -⟩ := Interest.mem_subscribersOf.1 hsubscriber
  have hreacts := hrule.reacts _ hsubscription i.id i.node i.subscriber.active.severity hnode
  -- The record holds what the callback did with the reporter of that moment.
  obtain ⟨r, hcall⟩ := genuine_of_mem_callRecords hi
  obtain ⟨visit, hvisit⟩ := hreacts.run_ok i.subscriber.active r
  have houtcome : i.outcome = .ok visit := by
    rw [hcall]
    exact hvisit
  have hfindings : i.findings = (i.subscriber.subscription.callback
      ⟨file, tree, i.id, i.node, i.subscriber.active.severity⟩).reports i.subscriber.active r :=
    congrArg CallRecord.findings hcall
  refine ⟨?_, fun d hd => ?_⟩
  · unfold error?
    rw [houtcome]
  · rw [hfindings] at hd
    exact hreacts.inside_of_mem_reports hd

/-- With rules that complete, an analysis reports findings only, all of them in the source. The
failures are counted from the records of the calls, and every diagnostic comes from one of them. -/
theorem Engine.Analyzed.of_completes {e : Engine} {file : SourceFile} {tree : SyntaxTree}
    {report : FileReport} (h : e.Analyzed file tree report)
    (hrules : ∀ rule ∈ e.catalog.rules, rule.Completes file tree) :
    report.stats.failedRules = 0 ∧ ∀ d ∈ report.diagnostics,
      d.isFinding = true ∧ d.range.Inside (byteLength file.content.toList) := by
  have hcalls : ∀ i ∈ callRecords file tree (e.interest file.category), i.error? = none ∧
      ∀ d ∈ i.findings, d.range.Inside (byteLength file.content.toList) := fun i hi =>
    CallRecord.of_completes hi (hrules _ (inUse_of_mem_callRecords hi).1)
  constructor
  · have hfailures : (walk file tree (e.interest file.category)).failedRules = _ :=
      callRecords_faithful.failures
    rw [h.failedRules, hfailures, List.length_eq_zero_iff, List.filterMap_eq_nil_iff]
    exact fun i hi => (hcalls i hi).1
  · intro d hd
    obtain ⟨i, hi, c, hc, rfl⟩ := h.exists_call hd
    obtain ⟨herror, hinside⟩ := hcalls i hi
    -- A call without an error reports its findings and nothing else.
    rw [CallRecord.reports, herror, Option.toList_none, List.append_nil] at hc
    obtain ⟨finding, hfinding⟩ := callRecords_faithful.own i hi c hc
    refine ⟨?_, hinside c hc⟩
    rw [hfinding]
    rfl

end Arborist
