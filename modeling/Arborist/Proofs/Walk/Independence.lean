import Arborist.Proofs.Interest
import Arborist.Proofs.Reporter
import Arborist.Proofs.Walk.Call
import Mathlib.Algebra.BigOperators.Group.List.Basic
import Mathlib.Algebra.Order.Ring.Nat
import Mathlib.Data.List.Nodup

/-!
# `Arborist.Proofs.Walk.Independence`: rules do not see each other

A walk with many rules holds, for each rule, the walk with that rule alone. `RuleView` says how to
find the second in the first: the reports under the code of the rule, the state at its position, and
the calls at its position. A call of the rule itself moves both walks on in the same way
(`RuleView.call_self`), since the answers to its reports depend on reports under its own code only;
a call of another rule leaves the view as it is (`RuleView.call_other`). So it holds of the whole
walk (`ruleView_walk`).

The calls and the failures of the walk are then the sums over the rules (`calls_walk_sum`,
`failedRules_walk_sum`).
-/

set_option autoImplicit false

namespace Arborist

/-! ### One callback -/

/-- What a rule reports for a finding. -/
def ActiveRule.diagnostic (active : ActiveRule) (finding : Finding) : Diagnostic where
  code := active.rule.descriptor.code
  rule := active.rule.descriptor.name
  severity := active.severity
  range := finding.range
  message := finding.message
  correction := finding.correction

namespace Reaction

/-- A report is made and answered, and the reaction goes on with the answer. -/
theorem run_report (active : ActiveRule) (finding : Finding) (next : Bool → Reaction)
    (r : Reporter) :
    (report finding next).run active r =
      (next (r.report (active.diagnostic finding)).1).run active
        (r.report (active.diagnostic finding)).2 := rfl

/-- A reaction ends in the same way, with the same reports under the code of its rule, when reports
under other codes are left out before. -/
theorem run_only (active : ActiveRule) (reaction : Reaction) (r : Reporter) :
    reaction.run active (r.only active.rule.descriptor.code) =
      ((reaction.run active r).1.only active.rule.descriptor.code,
        (reaction.run active r).2) := by
  induction reaction generalizing r with
  | finish visit => rfl
  | fail failure => rfl
  | report finding next ih =>
      have hcode : (active.diagnostic finding).code = active.rule.descriptor.code := rfl
      rw [run_report, run_report, Reporter.report_only hcode]
      exact ih _ _

/-- A reaction leaves the reports under other codes than that of its rule alone. The induction is on
the reaction, with any answer to its reports. -/
theorem only_run_of_ne {active : ActiveRule} {code : String}
    (h : active.rule.descriptor.code ≠ code) (reaction : Reaction) (r : Reporter) :
    (reaction.run active r).1.only code = r.only code := by
  induction reaction generalizing r with
  | finish visit => rfl
  | fail failure => rfl
  | report finding next ih =>
      have hcode : (active.diagnostic finding).code ≠ code := h
      rw [run_report, ih, Reporter.only_report_of_ne hcode]

end Reaction

namespace Subscriber

variable {file : SourceFile} {tree : SyntaxTree} {id : NodeId} {node : SyntaxNode}

/-- A callback does not see its position. -/
theorem react_solo (s : Subscriber) (r : Reporter) :
    s.solo.react file tree id node r = s.react file tree id node r := rfl

/-- The report of a failure stands under the code of the rule as well, so a whole call does not see
the reports under other codes. -/
theorem react_only (s : Subscriber) (r : Reporter) :
    s.react file tree id node (r.only s.active.rule.descriptor.code) =
      ((s.react file tree id node r).1.only s.active.rule.descriptor.code,
        (s.react file tree id node r).2) := by
  unfold react
  rw [Reaction.run_only]
  generalize (s.subscription.callback _).run s.active r = result
  obtain ⟨reporter, outcome⟩ := result
  cases outcome with
  | ok visit => rfl
  | error failure =>
      simp only
      rw [Reporter.report_only (by rfl)]

/-- A call leaves the reports under other codes than that of its rule alone, even if it fails: the
report of the failure has the code of the rule, too. -/
theorem only_react_of_ne {s : Subscriber} {code : String}
    (h : s.active.rule.descriptor.code ≠ code) (r : Reporter) :
    (s.react file tree id node r).1.only code = r.only code := by
  have hrun := Reaction.only_run_of_ne h
    (s.subscription.callback ⟨file, tree, id, node, s.active.severity⟩) r
  unfold react
  generalize (s.subscription.callback _).run s.active r = result at hrun ⊢
  obtain ⟨reporter, outcome⟩ := result
  cases outcome with
  | ok visit => exact hrun
  | error failure => exact (Reporter.only_report_of_ne h _).trans hrun

end Subscriber

/-! ### One rule in the walk -/

/-- `v` is what the walk `w` looks like to the rule at a position. -/
structure RuleView (position : Nat) (code : String) (w v : WalkState) : Prop where
  inUse : position < w.states.length
  reporter : v.reporter = w.reporter.only code
  states : v.states = [w.stateOf position]
  calls : v.calls.length = (w.calls.filter (·.position = position)).length

namespace RuleView

variable {file : SourceFile} {tree : SyntaxTree} {id : NodeId} {node : SyntaxNode}
  {position : Nat} {code : String} {w v : WalkState}

/-- To the rule alone, its state is the first. -/
theorem stateOf_zero (h : RuleView position code w v) : v.stateOf 0 = w.stateOf position := by
  rw [WalkState.stateOf, h.states]
  rfl

/-- A call of the rule itself is the same call for the rule alone. The callback ends in the same
way, since it sees nothing of the reports that are left out. -/
theorem call_self {s : Subscriber}
    (h : RuleView s.position s.active.rule.descriptor.code w v) :
    RuleView s.position s.active.rule.descriptor.code (w.call file tree id node s)
      (v.call file tree id node s.solo) where
  inUse := by
    rw [WalkState.length_states_call]
    exact h.inUse
  reporter := by
    rw [WalkState.reporter_call, WalkState.reporter_call, h.reporter, Subscriber.react_solo,
      Subscriber.react_only]
  states := by
    -- The reporter of the lone walk is the other one with only this rule's reports.
    have houtcome : (s.solo.react file tree id node v.reporter).2 =
        (s.react file tree id node w.reporter).2 := by
      rw [h.reporter, Subscriber.react_solo, Subscriber.react_only]
    rw [WalkState.stateOf_call_self h.inUse, ← houtcome, ← h.stateOf_zero, WalkState.call_eq]
    simp [h.states, Subscriber.solo]
  calls := by
    rw [WalkState.calls_call, WalkState.calls_call, List.filter_append, List.length_append,
      List.length_append, h.calls]
    simp

/-- A call of another rule does not show: its reports have another code, and its state and its calls
have another position. -/
theorem call_other {s : Subscriber} (h : RuleView position code w v)
    (hposition : s.position ≠ position) (hcode : s.active.rule.descriptor.code ≠ code) :
    RuleView position code (w.call file tree id node s) v where
  inUse := by
    rw [WalkState.length_states_call]
    exact h.inUse
  reporter := by
    rw [WalkState.reporter_call, Subscriber.only_react_of_ne hcode, h.reporter]
  states := by rw [WalkState.stateOf_call_ne (Ne.symm hposition), h.states]
  calls := by
    rw [WalkState.calls_call, List.filter_append, h.calls]
    simp [hposition]

/-- Turns of callbacks move the view on by the turns of the callbacks at its position. A rule
listens in both walks or in neither, since its state is the same. -/
theorem turns {subscribers : List Subscriber} (h : RuleView position code w v)
    (hcodes : ∀ s ∈ subscribers, s.position = position ↔ s.active.rule.descriptor.code = code) :
    RuleView position code (subscribers.foldl (WalkState.turn file tree id node) w)
      (((subscribers.filter (·.position = position)).map Subscriber.solo).foldl
        (WalkState.turn file tree id node) v) := by
  induction subscribers generalizing w v with
  | nil => exact h
  | cons s subscribers ih =>
      obtain ⟨hs, hrest⟩ := List.forall_mem_cons.1 hcodes
      rw [List.foldl_cons, List.filter_cons]
      by_cases hposition : s.position = position
      · -- A callback of the rule: both walks have it, and they decide alike.
        obtain rfl := hs.1 hposition
        subst hposition
        rw [if_pos (decide_eq_true rfl), List.map_cons, List.foldl_cons]
        refine ih ?_ hrest
        unfold WalkState.turn
        rw [show v.stateOf s.solo.position = w.stateOf s.position from h.stateOf_zero]
        split
        · exact h.call_self
        · exact h
      · -- A callback of another rule: only the joint walk has it, and the view does not see it.
        rw [if_neg (by simpa using hposition)]
        refine ih ?_ hrest
        unfold WalkState.turn
        split
        · exact h.call_other hposition fun hcode => hposition (hs.2 hcode)
        · exact h

end RuleView

/-- In a walk with rules of different codes, each rule sees the walk that it makes alone. The
induction is over the nodes; both walks visit all of them. -/
theorem ruleView_walk {interest : Interest} {position : Nat} {active : ActiveRule}
    (hcodes : (interest.rules.map (·.rule.descriptor.code)).Nodup)
    (hactive : interest.rules[position]? = some active) (file : SourceFile) (tree : SyntaxTree)
    (category : FileCategory) :
    RuleView position active.rule.descriptor.code (walk file tree interest)
      (walk file tree (Interest.alone category active)) := by
  have hstart : RuleView position active.rule.descriptor.code
      { states := interest.rules.map fun _ => .active }
      { states := (Interest.alone category active).rules.map fun _ => .active } := by
    refine ⟨?_, rfl, ?_, rfl⟩
    · rw [List.length_map]
      exact (List.getElem?_eq_some_iff.1 hactive).1
    · rw [WalkState.stateOf_start]
      rfl
  unfold walk
  -- The induction is from any two states that stand in the view, not only from the first ones.
  generalize ({ states := interest.rules.map fun _ => .active } : WalkState) = w at hstart ⊢
  generalize ({ states := (Interest.alone category active).rules.map fun _ => .active } :
    WalkState) = v at hstart ⊢
  induction tree.enumerated generalizing w v with
  | nil => exact hstart
  | cons entry entries ih =>
      obtain ⟨id, node⟩ := entry
      rw [List.foldl_cons, List.foldl_cons]
      refine ih _ _ ?_
      -- The count of nodes is no part of the view.
      have hcount : RuleView position active.rule.descriptor.code
          { w with nodes := w.nodes + 1 } { v with nodes := v.nodes + 1 } :=
        ⟨hstart.inUse, hstart.reporter, hstart.states, hstart.calls⟩
      rw [WalkState.visit_eq, WalkState.visit_eq,
        ← Interest.filter_subscribersOf hactive category node.kind]
      exact hcount.turns fun s hs => Interest.position_eq_iff_code_eq hcodes hactive hs

/-- If no rule in use has a code, then nothing is reported under it. -/
theorem only_reporter_walk {interest : Interest} {code : String}
    (habsent : ∀ active ∈ interest.rules, active.rule.descriptor.code ≠ code) (file : SourceFile)
    (tree : SyntaxTree) : (walk file tree interest).reporter.only code = {} := by
  refine @walk_invariant file tree interest (·.reporter.only code = {}) rfl (fun w hw => hw) ?_
  intro w id node hw s hs _
  have hactive := List.mem_of_getElem? (Interest.mem_subscribersOf.1 hs).1
  rw [WalkState.reporter_call, Subscriber.only_react_of_ne (habsent s.active hactive), hw]

/-! ### All rules together -/

/-- A rule that was called has failed if the call did. Had it failed before, it would not have been
called. -/
theorem RuleState.count_failed_after {id : NodeId} {state : RuleState}
    (h : state.listens id = true) (tree : SyntaxTree) (outcome : Except Failure Visit) :
    [state.after tree id outcome].count .failed = failureCount outcome := by
  match outcome with
  | .error _ | .ok .skipChildren | .ok .stop => rfl
  | .ok .proceed =>
      cases state with
      | active => rfl
      | stopped | failed => cases h
      | mutedWithin root stop =>
          rw [after, enter]
          split <;> rfl

/-- What the counts of a walk are counts of. -/
structure WalkState.Tallied (interest : Interest) (w : WalkState) : Prop where
  length : w.states.length = interest.rules.length
  failed : w.failedRules = w.states.count .failed
  positions : ∀ c ∈ w.calls, c.position < interest.rules.length

/-- The counts of a walk are right in the end, because every call keeps them right. A rule is not
called again after it failed, so the failures are the rules that have failed. -/
theorem tallied_walk (file : SourceFile) (tree : SyntaxTree) (interest : Interest) :
    (walk file tree interest).Tallied interest := by
  have hstart : (List.map (fun _ => RuleState.active) interest.rules).count .failed = 0 :=
    List.count_eq_zero.2 (by simp)
  refine walk_invariant ⟨by simp, hstart.symm, by simp [WalkState.calls]⟩
    (fun w hw => ⟨hw.length, hw.failed, hw.positions⟩) fun w id node hw s hs hlistens => ?_
  have hposition := Interest.position_lt_of_mem hs
  refine ⟨by rw [WalkState.length_states_call, hw.length], ?_, ?_⟩
  · have hlt : s.position < w.states.length := by rwa [hw.length]
    -- A rule that is called has not failed before, so that each failure counts once.
    have hbefore : (w.states[s.position] == RuleState.failed) = false := by
      have hstate : w.states[s.position] = w.stateOf s.position := by
        rw [WalkState.stateOf, List.getElem?_eq_getElem hlt, Option.getD_some]
      rw [hstate, beq_eq_false_iff_ne]
      intro hfailed
      rw [hfailed] at hlistens
      cases hlistens
    have hafter := RuleState.count_failed_after hlistens tree
      (s.react file tree id node w.reporter).2
    rw [List.count_singleton] at hafter
    rw [WalkState.call_eq]
    simp only
    rw [List.count_set hlt, hbefore, hw.failed, hafter]
    simp
  · intro c hc
    rw [WalkState.calls_call, List.mem_append, List.mem_singleton] at hc
    rcases hc with hc | rfl
    · exact hw.positions c hc
    · exact hposition

/-- Calls can be counted position by position, as each is at one of them. The induction is on the
calls; a call adds one at its own position and nothing elsewhere. -/
theorem length_eq_sum_positions {n : Nat} {calls : List Call} (h : ∀ c ∈ calls, c.position < n) :
    calls.length =
      ((List.range n).map fun p => (calls.filter (·.position = p)).length).sum := by
  induction calls with
  | nil => simp
  | cons c calls ih =>
      obtain ⟨hc, hcalls⟩ := List.forall_mem_cons.1 h
      have hstep : ∀ p, ((c :: calls).filter (·.position = p)).length =
          (calls.filter (·.position = p)).length + if p = c.position then 1 else 0 := by
        intro p
        by_cases hp : p = c.position
        · simp [hp]
        · simp [hp, Ne.symm hp]
      -- Of all positions exactly one is that of `c`.
      have hone : ((List.range n).map fun p => if p = c.position then 1 else 0).sum = 1 := by
        have hcount : (List.range n).count c.position = 1 :=
          List.count_eq_one_of_mem List.nodup_range (List.mem_range.2 hc)
        rw [List.sum_map_ite, List.filter_eq, hcount]
        simp
      simp only [hstep]
      rw [List.sum_map_add, ← ih hcalls, hone, List.length_cons]

section
variable {interest : Interest} (hcodes : (interest.rules.map (·.rule.descriptor.code)).Nodup)
  (file : SourceFile) (tree : SyntaxTree) (category : FileCategory)
include hcodes

/-- A walk makes as many calls as its rules make alone: those at a position are as many as the view
of the rule there shows. -/
theorem calls_walk_sum :
    (walk file tree interest).calls.length =
      (interest.rules.map fun active =>
        (walk file tree (Interest.alone category active)).calls.length).sum := by
  rw [length_eq_sum_positions (tallied_walk file tree interest).positions]
  congr 1
  refine List.ext_getElem (by simp) fun position _ hlt => ?_
  rw [List.length_map] at hlt
  rw [List.getElem_map, List.getElem_map, List.getElem_range]
  exact (ruleView_walk hcodes (List.getElem?_eq_getElem hlt) file tree category).calls.symm

/-- A walk has as many failures as its rules have alone. Both sides count the rules that are in the
failed state, of which each view shows one. -/
theorem failedRules_walk_sum :
    (walk file tree interest).failedRules =
      (interest.rules.map fun active =>
        (walk file tree (Interest.alone category active)).failedRules).sum := by
  -- Counting states is adding up the counts of single states.
  have hsum : ∀ states : List RuleState,
      states.count .failed = (states.map fun state => [state].count .failed).sum := by
    intro states
    induction states with
    | nil => rfl
    | cons state states ih =>
        rw [List.count_cons, List.map_cons, List.sum_cons, ← ih, List.count_singleton,
          Nat.add_comm]
  have htallied := tallied_walk file tree interest
  rw [htallied.failed, hsum]
  congr 1
  refine List.ext_getElem (by simp [htallied.length]) fun position hstate hlt => ?_
  rw [List.length_map] at hstate hlt
  have hview := ruleView_walk hcodes (List.getElem?_eq_getElem hlt) file tree category
  rw [List.getElem_map, List.getElem_map, (tallied_walk file tree _).failed, hview.states,
    WalkState.stateOf, List.getElem?_eq_getElem hstate, Option.getD_some]

end

end Arborist
