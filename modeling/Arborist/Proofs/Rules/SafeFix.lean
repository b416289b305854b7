import Arborist.Proofs.Engine
import Arborist.Proofs.Fix.Edited
import Arborist.Proofs.Fix.Outcome
import Arborist.Proofs.Rules.CallText
import Arborist.Proofs.Rules.Preset
import Arborist.Proofs.Rules.Reading

/-!
# `Arborist.Proofs.Rules.SafeFix`: what safe fixes do to a file

Two rules propose fixes that count as safe. One replaces an invocation of `dbg!` by its argument,
the other a comparison of a length with zero by a call of `.is_empty()`. `SafeEdit` says what such
an edit replaces and by what; all edits of a safe fix are of this form, for every configuration
(`BuiltIn.safeEdit`).

`safe_fix_replaces_nodes` is the main result. A safe fix replaces whole nodes, and a node that it
does not cut into is still there, with the replacements inside it and nothing else changed. This is
a statement about text. The tree of the fixed text need not be that of the old one
(`safe_fix_breaks_structure`): an argument is put in without parentheses, so operators around it may
take hold of a part of it, and a receiver may end in a comment, which then swallows the call.
-/

set_option autoImplicit false

namespace Arborist

open Text

namespace SyntaxTree

/-- A node that is found for a range is a node of the tree, with this range and of this kind. -/
theorem of_nodeAt? {tree : SyntaxTree} {range : TextRange} {kind : NodeKind} {id : NodeId}
    {node : SyntaxNode} (h : tree.nodeAt? range kind = some (id, node)) :
    node ∈ tree.nodes ∧ node.range = range ∧ node.kind = kind := by
  have hmem := mem_enumerated.1 (List.mem_of_find?_eq_some h)
  have hfits := List.find?_some h
  simp only [Bool.and_eq_true, decide_eq_true_eq] at hfits
  exact ⟨mem_nodes_iff.2 ⟨id, hmem⟩, hfits⟩

end SyntaxTree

namespace Rules

/-- The node compares the length that `call` asks for with zero; `negated` if they are to differ. -/
structure ComparesLength (tree : SyntaxTree) (node call : SyntaxNode) (negated : Bool) : Prop where
  binary : node.kind = .binary
  operator : node.name = some (if negated then "!=" else "==")
  asksLength : LengthComparison.isLengthCall tree call = true
  operands : ∃ zero rest, LengthComparison.isZero zero = true ∧
    (tree.operands node = call :: zero :: rest ∨ tree.operands node = zero :: call :: rest)

namespace LengthComparison

/-- Only two operators compare for being equal, and they tell whether the operands are to differ.
For any other there is no fix. -/
theorem name_of_negation? {name : Option String} {negated : Bool}
    (h : negation? name = some negated) : name = some (if negated then "!=" else "==") := by
  unfold negation? at h
  split at h
  · cases h
    rfl
  · cases h
    rfl
  · cases h

/-- If the rule takes two nodes for a length and a zero, then they are. -/
theorem of_isLengthAndZero {tree : SyntaxTree} {call zero : SyntaxNode}
    (h : isLengthAndZero tree call zero = .ok true) :
    isLengthCall tree call = true ∧ isZero zero = true := by
  obtain ⟨asks, hasks, h⟩ := bind_eq_ok_iff.1 h
  cases asks with
  | true => exact ⟨(eq_isLengthCall_of_asksLength hasks).symm, Except.ok.inj h⟩
  | false => cases h

/-- The operands of a comparison are the length and zero, in either order. Operands behind the first
two are not looked at. -/
theorem of_lengthOperand {tree : SyntaxTree} {operands : List SyntaxNode} {call : SyntaxNode}
    (h : lengthOperand tree operands = .ok (some call)) :
    isLengthCall tree call = true ∧ ∃ zero rest, isZero zero = true ∧
      (operands = call :: zero :: rest ∨ operands = zero :: call :: rest) := by
  match operands, h with
  | left :: right :: rest, h =>
      obtain ⟨onLeft, hleft, h⟩ := bind_eq_ok_iff.1 h
      -- The first operand is tried first, and the second only if the first is no such call.
      cases onLeft with
      | true =>
          cases h
          obtain ⟨hcall, hzero⟩ := of_isLengthAndZero hleft
          exact ⟨hcall, right, rest, hzero, .inl rfl⟩
      | false =>
          obtain ⟨onRight, hright, h⟩ := bind_eq_ok_iff.1 h
          cases onRight with
          | true =>
              cases h
              obtain ⟨hcall, hzero⟩ := of_isLengthAndZero hright
              exact ⟨hcall, left, rest, hzero, .inr rfl⟩
          | false => cases h
  | [], h => cases h
  | [_], h => cases h

/-- What the rule takes for a comparison of a length with zero is one, on any tree on which it does
not break down. It reads two operands, and there may be others behind them. -/
theorem comparesLength_of_comparison {tree : SyntaxTree} {node call : SyntaxNode} {negated : Bool}
    (h : comparison tree node = .ok (some (call, negated))) :
    ComparesLength tree node call negated := by
  rw [comparison] at h
  split at h
  · rename_i hkind
    split at h
    · cases h
    · rename_i negated' hoperator
      obtain ⟨found, hfound, h⟩ := bind_eq_ok_iff.1 h
      obtain ⟨call?, hcall, h⟩ := bind_eq_ok_iff.1 h
      obtain ⟨call', rfl, heq⟩ := Option.map_eq_some_iff.1 (Except.ok.inj h)
      cases heq
      obtain ⟨hasks, zero, rest, hzero, hbeginning⟩ := of_lengthOperand hcall
      -- What was read are the first two operands, and the others come behind them.
      obtain ⟨others, hoperands⟩ : ∃ others, tree.operands node = found ++ others := by
        refine ⟨(tree.operands node).drop 2, ?_⟩
        rw [SyntaxTree.eq_take_operands_of_takeOperands hfound, List.take_append_drop]
      refine ⟨hkind, name_of_negation? hoperator, hasks, zero, rest ++ others, hzero, ?_⟩
      rcases hbeginning with hbeginning | hbeginning
      · exact .inl (by rw [hoperands, hbeginning]; rfl)
      · exact .inr (by rw [hoperands, hbeginning]; rfl)
  · cases h

/-- The receiver is cut out of the text of a call between two characters. So the rule does not fail
at this cut once a receiver was found. -/
theorem front_eq {text : String} {method : String} {length : Nat}
    (h : receiverLength? text method = some length) :
    ∃ receiver, receiver? text.toList method.toList = some receiver ∧
      front text length = .ok (String.ofList receiver) := by
  obtain ⟨receiver, hreceiver, rfl⟩ := Option.map_eq_some_iff.1 h
  obtain ⟨rest, hrest⟩ := prefix_of_receiver? hreceiver
  have hslice : sliceChars text.toList 0 (byteLength receiver) = some receiver :=
    sliceChars_eq_some_iff.2 ⟨[], rest, by simp [hrest], by simp, by simp⟩
  refine ⟨receiver, hreceiver, ?_⟩
  rw [front, slice?, hslice]
  rfl

end LengthComparison

/-- What a safe edit does to a file with this tree. -/
inductive SafeEdit (file : SourceFile) (tree : SyntaxTree) : Edit → Prop where
  /-- Replaces an invocation of `dbg!` by its only argument. -/
  | unwrapDebug {call : SyntaxNode} {argument : List Char} (hnode : call ∈ tree.nodes)
      (hkind : call.kind = .macroCall) (hname : call.name.map macroBase = some "dbg")
      (hargument : argument ≠ []) (hsingle : hasTopLevelComma {} argument = false)
      (htext : Invokes argument (file.text call.range).toList) :
      SafeEdit file tree ⟨call.range, String.ofList argument⟩
  /-- Replaces a comparison of a length with zero by a call of `.is_empty()` on its receiver. -/
  | askIsEmpty {node call : SyntaxNode} {negated : Bool} {receiver : List Char}
      (hnode : node ∈ tree.nodes) (hcompares : ComparesLength tree node call negated)
      (hreceiver : receiver ≠ [])
      (htext : Spaced [receiver, ['.'], "len".toList, ['('], [')']] (file.text call.range).toList) :
      SafeEdit file tree
        ⟨node.range, (if negated then "!" else "") ++ String.ofList receiver ++ ".is_empty()"⟩

/-- What the rule proposes for a call of `.unwrap()`. Putting in a question mark returns early, so
it is always risky. -/
theorem UnwrapExpect.exists_of_mem_propose {file : SourceFile} {tree : SyntaxTree} {d : Diagnostic}
    {p : Proposal} (h : p ∈ propose file tree d) :
    ∃ (id : NodeId) (node : SyntaxNode) (receiver : List Char),
      tree.nodeAt? d.range .methodCall = some (id, node) ∧
      receiver? (file.text node.range).toList "unwrap".toList = some receiver ∧
      p.safety = .risky ∧
      p.edits = [⟨⟨node.range.start + byteLength receiver, node.range.stop⟩, "?"⟩] := by
  rw [propose] at h
  split at h
  · rename_i id node hnode
    split at h
    · split at h
      · rename_i length hlength
        obtain ⟨receiver, hreceiver, rfl⟩ := Option.map_eq_some_iff.1 hlength
        rw [List.mem_singleton.1 h]
        exact ⟨id, node, receiver, hnode, hreceiver, rfl, rfl⟩
      · cases h
    · cases h
  · cases h

/-- What the rule proposes for an invocation: unwrapping a call of `dbg!`, or deleting a statement,
which is risky. -/
theorem DebugMacro.exists_of_mem_propose {file : SourceFile} {tree : SyntaxTree} {d : Diagnostic}
    {p : Proposal} (h : p ∈ propose file tree d) :
    (∃ (id : NodeId) (call : SyntaxNode) (argument : List Char),
      tree.nodeAt? d.range .macroCall = some (id, call) ∧
      call.name.map macroBase = some "dbg" ∧
      singleArgument? (file.text call.range).toList = some argument ∧
      p.edits = [⟨call.range, String.ofList argument⟩]) ∨
    (p.safety = .risky ∧ p.label = "remove debug statement") := by
  rw [propose] at h
  split at h
  · rename_i id call hcall
    split at h
    · rename_i hname
      split at h
      · rename_i argument hargument
        rw [List.mem_singleton.1 h]
        exact .inl ⟨id, call, argument, hcall, hname, hargument, rfl⟩
      · cases h
    · cases h
  · -- There is no call at this range, so a statement is looked for.
    split at h
    · rw [List.mem_singleton.1 h]
      exact .inr ⟨rfl, rfl⟩
    · cases h

/-- The edit that unwraps a call of `dbg!` is a safe edit. Of the two proposals of this rule it is
the only one that counts as safe. -/
theorem DebugMacro.safeEdit_of_mem_propose {file : SourceFile} {tree : SyntaxTree} {d : Diagnostic}
    {p : Proposal} (h : p ∈ propose file tree d) (hsafe : p.safety = .safe) {edit : Edit}
    (hedit : edit ∈ p.edits) : SafeEdit file tree edit := by
  rcases exists_of_mem_propose h with ⟨id, call, argument, hcall, hname, hargument, hedits⟩ | hrisky
  · obtain ⟨hnode, -, hkind⟩ := SyntaxTree.of_nodeAt? hcall
    obtain ⟨hne, hsingle, htext⟩ := invokes_of_singleArgument? hargument
    rw [hedits, List.mem_singleton] at hedit
    rw [hedit]
    exact .unwrapDebug hnode hkind hname hne hsingle htext
  · rw [hrisky.1] at hsafe
    cases hsafe

/-- What the rule proposes for a comparison: to ask the receiver of `.len()` whether it is empty.
The cases follow the rule; everywhere but at its end it proposes nothing. -/
theorem LengthComparison.exists_of_mem_propose {file : SourceFile} {tree : SyntaxTree}
    {d : Diagnostic} {proposals : List Proposal} {p : Proposal}
    (h : propose file tree d = .ok proposals) (hp : p ∈ proposals) :
    ∃ (id : NodeId) (node call : SyntaxNode) (negated : Bool) (receiver : List Char),
      tree.nodeAt? d.range .binary = some (id, node) ∧ ComparesLength tree node call negated ∧
      receiver? (file.text call.range).toList "len".toList = some receiver ∧
      p.edits = [⟨d.range,
        (if negated then "!" else "") ++ String.ofList receiver ++ ".is_empty()"⟩] := by
  rw [propose] at h
  split at h
  · cases h
    cases hp
  · rename_i id node hnode
    obtain ⟨found, hcomparison, h⟩ := bind_eq_ok_iff.1 h
    match found, hcomparison, h with
    | none, _, h =>
        cases h
        cases hp
    | some (call, negated), hcomparison, h =>
        simp only at h
        split at h
        · cases h
          cases hp
        · -- The rule keeps the text up to the length of the receiver, which is the receiver.
          rename_i length hlength
          obtain ⟨receiver, hreceiver, hfront⟩ := front_eq hlength
          rw [hfront] at h
          cases h
          rw [List.mem_singleton.1 hp]
          exact ⟨id, node, call, negated, receiver, hnode,
            comparesLength_of_comparison hcomparison, hreceiver, rfl⟩

/-- The rule proposes something only where it does not break down. Where it does, nothing is taken
from it. -/
theorem LengthComparison.eq_ok_of_mem_propose {file : SourceFile} {tree : SyntaxTree}
    {d : Diagnostic} {p : Proposal} (h : p ∈ (rule.propose file tree d).getD []) :
    ∃ proposals, propose file tree d = .ok proposals ∧ p ∈ proposals := by
  change p ∈ (propose file tree d).toOption.getD [] at h
  cases hresult : propose file tree d with
  | error failure =>
      rw [hresult] at h
      cases h
  | ok proposals => exact ⟨proposals, rfl, by rwa [hresult] at h⟩

/-- The edit for a comparison of a length is a safe edit. It replaces the comparison, and the
receiver is taken from the text of the call as it stands. -/
theorem LengthComparison.safeEdit_of_mem_propose {file : SourceFile} {tree : SyntaxTree}
    {d : Diagnostic} {proposals : List Proposal} {p : Proposal}
    (h : propose file tree d = .ok proposals) (hp : p ∈ proposals) {edit : Edit}
    (hedit : edit ∈ p.edits) : SafeEdit file tree edit := by
  obtain ⟨id, node, call, negated, receiver, hnode, hcompares, hreceiver, hedits⟩ :=
    exists_of_mem_propose h hp
  obtain ⟨hnode, hrange, -⟩ := SyntaxTree.of_nodeAt? hnode
  obtain ⟨hne, htext⟩ := spaced_of_receiver? hreceiver
  rw [hedits, List.mem_singleton] at hedit
  rw [hedit, ← hrange]
  exact .askIsEmpty hnode hcompares hne htext

/-- Under any settings, the edits of a rule's safe proposals are safe edits. Two rules have such
proposals; one has only risky ones, and two have none. -/
theorem BuiltIn.safeEdit {rule : Rule} (h : BuiltIn rule) {file : SourceFile} {tree : SyntaxTree}
    {d : Diagnostic} {p : Proposal} (hp : p ∈ (rule.propose file tree d).getD [])
    (hsafe : p.safety = .safe) {edit : Edit} (hedit : edit ∈ p.edits) :
    SafeEdit file tree edit := by
  cases h with
  | unwrapExpect settings =>
      obtain ⟨-, -, -, -, -, hrisky, -⟩ := UnwrapExpect.exists_of_mem_propose hp
      rw [hsafe] at hrisky
      cases hrisky
  | debugMacro => exact DebugMacro.safeEdit_of_mem_propose hp hsafe hedit
  | lengthComparison =>
      obtain ⟨proposals, hproposals, hmem⟩ := LengthComparison.eq_ok_of_mem_propose hp
      exact LengthComparison.safeEdit_of_mem_propose hproposals hmem hedit
  | docComment settings => cases hp
  | placeholder => cases hp

end Rules

/-- Under a configuration, the safe fixes for a file make these edits, and `fixed` of its text; none
if nothing changes. -/
def SafelyFixed (config : Config) (file : SourceFile) (tree : SyntaxTree) (edits : List Edit)
    (fixed : Option String) : Prop :=
  ∃ engine report outcome, Engine.ofConfig config = .ok engine ∧
    engine.analyze file tree = .ok report ∧ engine.fix file tree report false = .ok outcome ∧
    outcome.edits = edits ∧ outcome.fixed = fixed

/-- Running the engine of a configuration shows what it fixes. Results of the engine cannot be
compared themselves, so the run is stated with the parts that can. -/
theorem safelyFixed_of_run {config : Config} {file : SourceFile} {tree : SyntaxTree}
    {edits : List Edit} {fixed : Option String}
    (h : let engine : Engine := ⟨⟨(Preset.ofConfig config).rules config⟩, config⟩
      ((engine.analyze file tree).toOption.bind fun report =>
        (engine.fix file tree report false).toOption.map fun outcome =>
          (outcome.edits, outcome.fixed)) = some (edits, fixed)) :
    SafelyFixed config file tree edits fixed := by
  obtain ⟨report, hreport, h⟩ := Option.bind_eq_some_iff.1 h
  obtain ⟨outcome, houtcome, h⟩ := Option.map_eq_some_iff.1 h
  obtain ⟨hedits, hfixed⟩ := Prod.mk.inj h
  exact ⟨_, report, outcome, Engine.ofConfig_eq_ok config, eq_ok_of_toOption hreport,
    eq_ok_of_toOption houtcome, hedits, hfixed⟩

/-- A safe fix replaces whole nodes and leaves the rest. For every configuration that leaves unsafe
fixes off and every file with a valid tree, fixing has an outcome. Each of its edits replaces the
range of one node, an invocation of `dbg!` or a comparison of a length with zero, by a text that
stands in that node. If there are edits, there is a fixed text. It is the old one with the edits
made, and every node that no edit cuts into is still there, with the edits inside it made and no
others. -/
theorem safe_fix_replaces_nodes (config : Config) (file : SourceFile) (tree : SyntaxTree)
    (hsafe : config.analyzer.unsafeFixes = false)
    (hvalid : tree.validate (byteLength file.content.toList) = .ok ()) :
    ∃ edits fixed, SafelyFixed config file tree edits fixed ∧
      (∀ edit ∈ edits, Rules.SafeEdit file tree edit) ∧
      (fixed = none ↔ edits = []) ∧
      ∀ text, fixed = some text →
        Edited 0 file.content.toList edits text.toList ∧
        ∀ node ∈ tree.nodes, ∀ original, node.text? file.content = some original →
          (∀ edit ∈ edits, node.range.contains edit.range = true ∨
            edit.range.stop ≤ node.range.start ∨ node.range.stop ≤ edit.range.start) →
          ∃ front piece back, text.toList = front ++ piece ++ back ∧
            Edited node.range.start original.toList
              (edits.filter fun edit => node.range.contains edit.range) piece := by
  have hengine := Engine.ofConfig_eq_ok config
  obtain ⟨report, hreport⟩ := Engine.analyzed_of_valid
    ⟨⟨(Preset.ofConfig config).rules config⟩, config⟩ hvalid
  obtain ⟨outcome, houtcome⟩ := Engine.exists_fixes
    ⟨⟨(Preset.ofConfig config).rules config⟩, config⟩ file tree report false
  refine ⟨outcome.edits, outcome.fixed,
    ⟨_, report, outcome, hengine, hreport.ok, houtcome.ok, rfl, rfl⟩, fun edit hedit => ?_,
    houtcome.unchanged, fun text htext => ?_⟩
  · -- Risky proposals are neither allowed by the configuration nor by the call.
    obtain ⟨rule, hrule, d, -, p, hp, hmem, hp_safe⟩ := houtcome.exists_rule hedit
    exact (Preset.builtIn_of_mem_rules hrule).safeEdit hp (hp_safe hsafe) hmem
  · have hedited := edited_of_applyEdits (houtcome.fixed text htext)
    refine ⟨hedited, fun node _ original horiginal huncut => ?_⟩
    have hcompatible : outcome.resolution.Compatible file.content :=
      houtcome.resolution ▸ Resolver.compatible_resolve _ _ _ _
    obtain ⟨chars, hchars, rfl⟩ := Option.map_eq_some_iff.1 horiginal
    rw [String.toList_ofList]
    -- A script never overlaps, so the edits in the node can be taken out of it.
    refine hedited.reappears (fun edit hedit => ?_) ?_ hchars huncut
    · exact (hcompatible.script_cuts edit (houtcome.edits ▸ hedit)).ordered
    · exact houtcome.edits ▸ hcompatible.script_before

/-! ### The tree of the fixed text -/

/-- No edit covers the node. -/
def SyntaxNode.Kept (edits : List Edit) (node : SyntaxNode) : Prop :=
  ∀ edit ∈ edits, edit.range.contains node.range = false

instance (edits : List Edit) (node : SyntaxNode) : Decidable (node.Kept edits) :=
  inferInstanceAs (Decidable (∀ edit ∈ edits, edit.range.contains node.range = false))

/-- The nodes that no edit covers are in the new tree as well, with their kinds and names, in the
same order and under the same parents. -/
def KeepsStructure (old : SyntaxTree) (edits : List Edit) (new : SyntaxTree) : Prop :=
  ∃ place : NodeId → NodeId,
    (∀ a b node next, old.node? a = some node → node.Kept edits → old.node? b = some next →
      next.Kept edits → a < b → place a < place b) ∧
    ∀ id node, old.node? id = some node → node.Kept edits →
      ∃ node', new.node? (place id) = some node' ∧ node'.kind = node.kind ∧
        node'.name = node.name ∧ node'.parent = node.parent.map place

/-- Where the structure is kept, a node and its parent are found again as node and parent. Only
their kinds and the name of the node are used in what follows. -/
theorem KeepsStructure.exists_child {old new : SyntaxTree} {edits : List Edit}
    (h : KeepsStructure old edits new) (id up : NodeId) {node parent : SyntaxNode}
    (hnode : old.node? id = some node) (hkept : node.Kept edits) (hup : node.parent = some up)
    (hparent : old.node? up = some parent) (hparentKept : parent.Kept edits) :
    ∃ node' ∈ new.nodes, ∃ parent', node'.parent.bind new.node? = some parent' ∧
      node'.kind = node.kind ∧ node'.name = node.name ∧ parent'.kind = parent.kind := by
  obtain ⟨place, -, hplace⟩ := h
  obtain ⟨node', hnode', hkind, hname, hlink⟩ := hplace id node hnode hkept
  obtain ⟨parent', hparent', hparentKind, -⟩ := hplace up parent hparent hparentKept
  refine ⟨node', SyntaxTree.mem_nodes_iff.2 ⟨_, hnode'⟩, parent', ?_, hkind, hname, hparentKind⟩
  rw [hlink, hup]
  exact hparent'

/-- The tree of `fn f(){2*dbg!(1+1)}`. -/
def productTree : SyntaxTree :=
  OrderedTree.arena <| .node .file ⟨0, 19⟩ none [.node .function ⟨0, 19⟩ (some "f") [
    .node .block ⟨6, 19⟩ none [.node .binary ⟨7, 18⟩ (some "*") [
      .node .numberLiteral ⟨7, 8⟩ (some "2") [], .node .macroCall ⟨9, 18⟩ (some "dbg") []]]]]

/-- The tree of the same function with `v//` and, on a line of its own, `.len()==0` in its body. -/
def commentTree : SyntaxTree :=
  OrderedTree.arena <| .node .file ⟨0, 21⟩ none [.node .function ⟨0, 21⟩ (some "f") [
    .node .block ⟨6, 21⟩ none [.node .binary ⟨7, 20⟩ (some "==") [
      .node .methodCall ⟨7, 17⟩ (some "len") [.node .path ⟨7, 8⟩ (some "v") []],
      .node .numberLiteral ⟨19, 20⟩ (some "0") []]]]]

/-- In the tree of `fn f(){2*1+1}` the product is no longer what the block holds. It is computed for
all nodes of the tree at once. -/
theorem product_not_in_block {new : SyntaxTree}
    (h : SyntaxTree.ofSource "fn f()\x7b2*1+1\x7d" = .ok new) :
    ¬ ∃ node ∈ new.nodes, ∃ parent, node.parent.bind new.node? = some parent ∧
      node.kind = .binary ∧ node.name = some "*" ∧ parent.kind = .block := by
  have hnone : ((SyntaxTree.ofSource "fn f()\x7b2*1+1\x7d").toOption.all fun new =>
      new.nodes.toList.all fun node =>
        !(node.kind = .binary && node.name = some "*" &&
          (node.parent.bind new.node?).any (·.kind = .block))) = true := by
    decide +kernel
  rintro ⟨node, hmem, parent, hparent, hkind, hname, hblock⟩
  rw [h] at hnone
  have hnode := List.all_eq_true.1 hnone node (by simpa using hmem)
  simp [hkind, hname, hparent, hblock] at hnode

/-- The text is read into a valid tree and safely fixed under the default configuration, but the
fixed text cannot be read or does not keep the structure. -/
def SafeFixBreaks (content : String) : Prop :=
  ∃ tree edits fixed, SyntaxTree.ofSource content = .ok tree ∧
    tree.validate (byteLength content.toList) = .ok () ∧
    SafelyFixed {} (SourceFile.ofPath "src/lib.rs" content "") tree edits (some fixed) ∧
    ¬ ∃ new, SyntaxTree.ofSource fixed = .ok new ∧ KeepsStructure tree edits new

/-- Safe fixes can break the structure of a program. The first text becomes `fn f(){2*1+1}`, where
the product is an operand of the sum and no longer the body of the function. The second becomes
`fn f(){v//.is_empty()}`, which cannot be read. -/
theorem safe_fix_breaks_structure :
    SafeFixBreaks "fn f()\x7b2*dbg!(1+1)\x7d" ∧ SafeFixBreaks "fn f()\x7bv//\n.len()==0\x7d" := by
  constructor
  · refine ⟨productTree, [⟨⟨9, 18⟩, "1+1"⟩], "fn f()\x7b2*1+1\x7d",
      eq_ok_of_toOption (by decide +kernel), eq_ok_of_toOption (by decide +kernel),
      safelyFixed_of_run (by decide +kernel), ?_⟩
    rintro ⟨new, hnew, hkeeps⟩
    refine product_not_in_block hnew ?_
    exact hkeeps.exists_child 3 2 rfl (by decide) rfl rfl (by decide)
  · refine ⟨commentTree, [⟨⟨7, 20⟩, "v//.is_empty()"⟩], "fn f()\x7bv//.is_empty()\x7d",
      eq_ok_of_toOption (by decide +kernel), eq_ok_of_toOption (by decide +kernel),
      safelyFixed_of_run (by decide +kernel), ?_⟩
    rintro ⟨new, hnew, -⟩
    -- The comment now runs to the end of the line and takes the closing brace with it.
    have hnone : (SyntaxTree.ofSource "fn f()\x7bv//.is_empty()\x7d").toOption = none := by
      decide +kernel
    rw [hnew] at hnone
    cases hnone

end Arborist
