import Arborist.Interest
import Arborist.Proofs.Catalog

/-!
# `Arborist.Proofs.Interest`: the callbacks for a kind of node

Which callbacks there are for a kind of node (`mem_subscribersOf`), and that position and slot tell
them apart when the rules come from a catalog (`pairwise_subscribersOf`). Whoever looks only at one
position sees the callbacks of one rule (`subscribersOf_at`), in the order in which they would stand
if no other rule were in use (`filter_subscribersOf`).
-/

set_option autoImplicit false

namespace Arborist

/-- Two callbacks whose calls at a node could not be told apart. -/
def Subscriber.SameCall (s t : Subscriber) : Prop :=
  s.position = t.position ∧ s.subscription.slot = t.subscription.slot

/-- The callback when its rule is in use alone. -/
def Subscriber.solo (s : Subscriber) : Subscriber := { s with position := 0 }

namespace Interest

/-- One rule in use. -/
def alone (category : FileCategory) (active : ActiveRule) : Interest := ⟨category, [active]⟩

/-- The callbacks for a kind are those that the rules in use have for it, each with the position of
its rule among them. -/
theorem mem_subscribersOf {i : Interest} {kind : NodeKind} {s : Subscriber} :
    s ∈ i.subscribersOf kind ↔
      i.rules[s.position]? = some s.active ∧ s.subscription ∈ s.active.rule.subscriptions ∧
        s.subscription.kind = kind := by
  simp only [subscribersOf, subscribers, List.mem_filter, List.mem_flatMap, List.mem_map,
    decide_eq_true_eq, ← and_assoc]
  refine and_congr_left fun _ => ?_
  constructor
  · rintro ⟨⟨active, position⟩, hrule, subscription, hsubscription, rfl⟩
    exact ⟨List.mem_zipIdx_iff_getElem?.1 hrule, hsubscription⟩
  · rintro ⟨hrule, hsubscription⟩
    exact ⟨(s.active, s.position), List.mem_zipIdx_iff_getElem?.2 hrule, s.subscription,
      hsubscription, rfl⟩

/-- The position of a callback is that of a rule in use. -/
theorem position_lt_of_mem {i : Interest} {kind : NodeKind} {s : Subscriber}
    (h : s ∈ i.subscribersOf kind) : s.position < i.rules.length :=
  (List.getElem?_eq_some_iff.1 (mem_subscribersOf.1 h).1).1

/-- The rules in use are rules of the catalog. The settings choose among them and add none. -/
theorem mem_rules_of_mem_build {catalog : Catalog} {config : Config} {category : FileCategory}
    {active : ActiveRule} (h : active ∈ (build catalog config category).rules) :
    active.rule ∈ catalog.rules := by
  obtain ⟨rule, hrule, rfl⟩ := List.mem_map.1 h
  exact (List.mem_filter.1 hrule).1

/-- For sound rules, position and slot tell the callbacks for a kind apart. Those of different rules
differ in the position, those of one rule in the slot. -/
theorem pairwise_subscribersOf {i : Interest} (hsound : ∀ active ∈ i.rules, active.rule.Sound)
    (kind : NodeKind) :
    (i.subscribersOf kind).Pairwise fun s t => ¬ s.SameCall t := by
  have hall : i.subscribers.Pairwise fun s t =>
      ¬ (s.position = t.position ∧ Rule.SameSlot s.subscription t.subscription) := by
    rw [subscribers, List.pairwise_flatMap]
    constructor
    · rintro ⟨active, position⟩ hrule
      rw [List.pairwise_map]
      have hactive := List.mem_of_getElem? (List.mem_zipIdx_iff_getElem?.1 hrule)
      exact (hsound active hactive).slots.imp fun hslots h => hslots h.2
    · have hpositions : (i.rules.zipIdx.map Prod.snd).Pairwise (· < ·) := by
        rw [List.zipIdx_map_snd]
        exact List.pairwise_lt_range'
      refine (List.pairwise_map.1 hpositions).imp fun hlt s hs t ht h => ?_
      obtain ⟨_, _, rfl⟩ := List.mem_map.1 hs
      obtain ⟨_, _, rfl⟩ := List.mem_map.1 ht
      exact Nat.ne_of_lt hlt h.1
  -- The callbacks in question are for the same kind, so a slot in common is the same slot.
  refine (hall.filter _).imp_of_mem fun hs ht hne h => hne ⟨h.1, ?_, h.2⟩
  have hkind : ∀ u ∈ i.subscribersOf kind, u.subscription.kind = kind := fun u hu =>
    (mem_subscribersOf.1 hu).2.2
  rw [hkind _ hs, hkind _ ht]

/-- Rules in use from a catalog have different codes, because those of the catalog have. -/
theorem nodup_codes_build {rules : List Rule} (h : rules.Pairwise Rule.Distinct) (config : Config)
    (category : FileCategory) :
    ((build ⟨rules⟩ config category).rules.map (·.rule.descriptor.code)).Nodup := by
  rw [build, List.map_map, List.Nodup, List.pairwise_map]
  exact (h.filter _).imp fun hdistinct => hdistinct.1

/-- If codes differ, then the callbacks at a position are the callbacks under a code. So a rule can
be told by either. -/
theorem position_eq_iff_code_eq {i : Interest}
    (hcodes : (i.rules.map (·.rule.descriptor.code)).Nodup) {position : Nat} {active : ActiveRule}
    (hactive : i.rules[position]? = some active) {kind : NodeKind} {s : Subscriber}
    (hs : s ∈ i.subscribersOf kind) :
    s.position = position ↔ s.active.rule.descriptor.code = active.rule.descriptor.code := by
  have hrule := (mem_subscribersOf.1 hs).1
  constructor
  · rintro rfl
    rw [hrule] at hactive
    rw [Option.some.inj hactive]
  · -- The codes of the rules are different, so their place in the list is determined.
    intro hcode
    refine (List.getElem?_inj (by simpa using position_lt_of_mem hs) hcodes).1 ?_
    rw [List.getElem?_map, List.getElem?_map, hrule, hactive, Option.map_some, Option.map_some,
      hcode]

/-- The callbacks at one position are those of the rule there. The rules before and behind it have
other positions, so all of theirs are left out. -/
theorem subscribersOf_at {i : Interest} {position : Nat} {active : ActiveRule}
    (hactive : i.rules[position]? = some active) (kind : NodeKind) :
    (i.subscribersOf kind).filter (·.position = position) =
      (active.rule.subscriptions.filter (·.kind = kind)).map fun subscription =>
        (⟨position, active, subscription⟩ : Subscriber) := by
  obtain ⟨hlt, hget⟩ := List.getElem?_eq_some_iff.1 hactive
  have hrules : i.rules = i.rules.take position ++ active :: i.rules.drop (position + 1) := by
    rw [← hget, ← List.drop_eq_getElem_cons hlt, List.take_append_drop]
  have hbefore : (i.rules.take position).length = position :=
    List.length_take_of_le (Nat.le_of_lt hlt)
  -- Rules with other positions have no callback here.
  have hother : ∀ (rules : List ActiveRule) (first : Nat),
      (∀ p, first ≤ p → p < first + rules.length → p ≠ position) →
      ((rules.zipIdx first).flatMap fun ranked =>
        ranked.1.rule.subscriptions.map fun subscription =>
          (⟨ranked.2, ranked.1, subscription⟩ : Subscriber)).filter
            (·.position = position) = [] := by
    intro rules first hpositions
    rw [List.filter_eq_nil_iff]
    intro s hs
    obtain ⟨⟨active, p⟩, hrule, hsubscription⟩ := List.mem_flatMap.1 hs
    obtain ⟨subscription, -, rfl⟩ := List.mem_map.1 hsubscription
    obtain ⟨hfirst, hlast, -⟩ := List.mem_zipIdx hrule
    simpa using hpositions p hfirst hlast
  have hposition : i.subscribers.filter (·.position = position) =
      active.rule.subscriptions.map fun subscription =>
        (⟨position, active, subscription⟩ : Subscriber) := by
    have hsubscribers : i.subscribers = i.rules.zipIdx.flatMap fun ranked =>
        ranked.1.rule.subscriptions.map fun subscription =>
          ⟨ranked.2, ranked.1, subscription⟩ := rfl
    rw [hsubscribers, hrules, List.zipIdx_append, List.zipIdx_cons, List.flatMap_append,
      List.flatMap_cons, List.filter_append, List.filter_append, hbefore, hother _ 0 (by omega),
      hother _ _ (by omega)]
    simp
  have hswap : (i.subscribersOf kind).filter (·.position = position) =
      (i.subscribers.filter (·.position = position)).filter (·.subscription.kind = kind) := by
    rw [subscribersOf, List.filter_filter, List.filter_filter]
    congr 1
    funext s
    exact Bool.and_comm _ _
  rw [hswap, hposition, List.filter_map]
  rfl

/-- They are those that the rule has when it is in use alone, in the same order; only the position
changes. -/
theorem filter_subscribersOf {i : Interest} {position : Nat} {active : ActiveRule}
    (hactive : i.rules[position]? = some active) (category : FileCategory) (kind : NodeKind) :
    ((i.subscribersOf kind).filter (·.position = position)).map Subscriber.solo =
      (alone category active).subscribersOf kind := by
  rw [subscribersOf_at hactive]
  simp [subscribersOf, subscribers, alone, List.filter_map, Function.comp_def, Subscriber.solo]

end Interest

end Arborist
