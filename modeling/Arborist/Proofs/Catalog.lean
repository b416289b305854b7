import Arborist.Catalog

/-!
# `Arborist.Proofs.Catalog`: what rules make a catalog

Rules are checked one by one, each against those before it. `build_eq_ok_iff` says what this comes
to for the list as a whole: nothing is wrong with any descriptor, no rule uses a slot twice for one
kind of node, and no two rules share a code or a name.
-/

set_option autoImplicit false

namespace Arborist

namespace Rule

/-- Two subscriptions that a rule must not have both. -/
def SameSlot (a b : Subscription) : Prop := a.kind = b.kind ∧ a.slot = b.slot

/-- No subscription repeats kind and slot of another one, here or among those before. The induction
is over the subscriptions still to be looked at, for any list of earlier ones, as the search moves
each subscription over to those. -/
theorem repeatedSubscription?_eq_none_iff {before subscriptions : List Subscription} :
    repeatedSubscription? before subscriptions = none ↔
      (subscriptions.Pairwise fun a b => ¬ SameSlot a b) ∧
      ∀ b ∈ before, ∀ s ∈ subscriptions, ¬ SameSlot b s := by
  induction subscriptions generalizing before with
  | nil => simp [repeatedSubscription?]
  | cons s rest ih =>
      have hany : (before.any fun b => b.kind = s.kind && b.slot = s.slot) = true ↔
          ∃ b ∈ before, SameSlot b s := by
        simp [SameSlot]
      rw [repeatedSubscription?, List.pairwise_cons]
      split
      · -- The search stops here, and the earlier subscription with the same slot refutes the right
        -- side.
        rename_i hrepeated
        obtain ⟨b, hb, hsame⟩ := hany.1 hrepeated
        simp only [reduceCtorEq, false_iff, not_and]
        exact fun _ h => h b hb s (by simp) hsame
      · rename_i hnew
        rw [hany] at hnew
        -- From here on `s` is one of the earlier subscriptions, so pairs with `s` change sides.
        rw [ih]
        constructor
        · rintro ⟨hrest, hbefore⟩
          refine ⟨⟨fun t ht => hbefore s (by simp) t ht, hrest⟩, fun b hb t ht hsame => ?_⟩
          rcases List.mem_cons.1 ht with rfl | ht
          · exact hnew ⟨b, hb, hsame⟩
          · exact hbefore b (by simp [hb]) t ht hsame
        · rintro ⟨⟨hs, hrest⟩, hbefore⟩
          refine ⟨hrest, fun b hb t ht => ?_⟩
          rcases List.mem_append.1 hb with hb | hb
          · exact hbefore b hb t (by simp [ht])
          · rw [List.mem_singleton.1 hb]
            exact hs t ht

/-- What a rule must be on its own. -/
structure Sound (rule : Rule) : Prop where
  descriptor : rule.descriptor.problem? = none
  slots : rule.subscriptions.Pairwise fun a b => ¬ SameSlot a b

/-- Two rules that can stand in one catalog. -/
def Distinct (a b : Rule) : Prop :=
  a.descriptor.code ≠ b.descriptor.code ∧ a.descriptor.name ≠ b.descriptor.name

/-- The check of one rule: it passes exactly if the rule is sound by itself and has neither its code
nor its name in common with a rule before it. -/
theorem check_eq_ok_iff {before : List Rule} {rule : Rule} :
    rule.check before = .ok () ↔ rule.Sound ∧ ∀ b ∈ before, Distinct b rule := by
  have hslots : repeatedSubscription? [] rule.subscriptions = none ↔
      rule.subscriptions.Pairwise fun a b => ¬ SameSlot a b := by
    simp [repeatedSubscription?_eq_none_iff]
  rw [check]
  -- The four tests in the order in which they are made; each that fails contradicts one part of the
  -- right side.
  cases hproblem : rule.descriptor.problem? with
  | some problem =>
      simp only [reduceCtorEq, false_iff, not_and]
      intro h
      rw [h.descriptor] at hproblem
      cases hproblem
  | none =>
      by_cases hcode : (before.any (·.descriptor.code = rule.descriptor.code)) = true
      · simp only [if_pos hcode, reduceCtorEq, false_iff, not_and]
        obtain ⟨b, hb, heq⟩ := List.any_eq_true.1 hcode
        exact fun _ h => (h b hb).1 (of_decide_eq_true heq)
      · by_cases hname : (before.any (·.descriptor.name = rule.descriptor.name)) = true
        · simp only [if_neg hcode, if_pos hname, reduceCtorEq, false_iff, not_and]
          obtain ⟨b, hb, heq⟩ := List.any_eq_true.1 hname
          exact fun _ h => (h b hb).2 (of_decide_eq_true heq)
        · have hdistinct : ∀ b ∈ before, Distinct b rule := fun b hb =>
            ⟨fun heq => hcode (List.any_eq_true.2 ⟨b, hb, decide_eq_true heq⟩),
              fun heq => hname (List.any_eq_true.2 ⟨b, hb, decide_eq_true heq⟩)⟩
          simp only [if_neg hcode, if_neg hname]
          cases hrepeated : repeatedSubscription? [] rule.subscriptions with
          | some s =>
              simp only [reduceCtorEq, false_iff, not_and]
              intro h
              rw [hslots.2 h.slots] at hrepeated
              cases hrepeated
          | none =>
              exact ⟨fun _ => ⟨⟨hproblem, hslots.1 hrepeated⟩, hdistinct⟩, fun _ => rfl⟩

end Rule

namespace Catalog

/-- The checks of a list, one rule after another and each against those before it, come to a
condition on the rules and one on pairs, which does not mention the order of the checks any more. -/
theorem checkFrom_eq_ok_iff {before rules : List Rule} :
    checkFrom before rules = .ok () ↔
      (∀ rule ∈ rules, rule.Sound) ∧ rules.Pairwise Rule.Distinct ∧
        ∀ b ∈ before, ∀ rule ∈ rules, Rule.Distinct b rule := by
  induction rules generalizing before with
  | nil => simp [checkFrom]
  | cons rule rules ih =>
      have hstep : checkFrom before (rule :: rules) = .ok () ↔
          rule.check before = .ok () ∧ checkFrom (before ++ [rule]) rules = .ok () := by
        rw [checkFrom]
        cases rule.check before <;> simp [bind, Except.bind]
      -- The pairs with `rule` are on the left among those with earlier rules, on the right among
      -- all pairs.
      rw [hstep, Rule.check_eq_ok_iff, ih, List.pairwise_cons]
      constructor
      · rintro ⟨⟨hsound, hfirst⟩, hsounds, hpairs, hbefore⟩
        refine ⟨List.forall_mem_cons.2 ⟨hsound, hsounds⟩,
          ⟨fun other hother => hbefore rule (by simp) other hother, hpairs⟩,
          fun b hb => List.forall_mem_cons.2 ⟨hfirst b hb, hbefore b (by simp [hb])⟩⟩
      · rintro ⟨hsounds, ⟨hfirst, hpairs⟩, hbefore⟩
        obtain ⟨hsound, hsounds⟩ := List.forall_mem_cons.1 hsounds
        refine ⟨⟨hsound, fun b hb => hbefore b hb rule (by simp)⟩, hsounds, hpairs,
          fun b hb other hother => ?_⟩
        rcases List.mem_append.1 hb with hb | hb
        · exact hbefore b hb other (by simp [hother])
        · rw [List.mem_singleton.1 hb]
          exact hfirst other hother

/-- Rules make a catalog if each is sound and any two are distinct; the catalog holds them all in
order. Nothing else can go wrong, so this decides also when there is no catalog. -/
theorem build_eq_ok_iff {rules : List Rule} {catalog : Catalog} :
    build rules = .ok catalog ↔
      (∀ rule ∈ rules, rule.Sound) ∧ rules.Pairwise Rule.Distinct ∧ catalog = ⟨rules⟩ := by
  have hcheck := @checkFrom_eq_ok_iff [] rules
  rw [build]
  cases hresult : checkFrom [] rules with
  -- The checks stop at an error, so the rules are not as the right side says.
  | error e =>
      simp only [bind, Except.bind, reduceCtorEq, false_iff]
      rintro ⟨hsound, hpairs, -⟩
      rw [hcheck.2 ⟨hsound, hpairs, by simp⟩] at hresult
      cases hresult
  | ok u =>
      obtain ⟨hsound, hpairs, -⟩ := hcheck.1 hresult
      simp only [bind, Except.bind, pure, Except.pure, Except.ok.injEq]
      exact ⟨fun h => ⟨hsound, hpairs, h.symm⟩, fun h => h.2.2.symm⟩

end Catalog

end Arborist
