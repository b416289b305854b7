import Arborist.Proofs.Catalog.Verdict
import Arborist.Proofs.Engine.Attribution
import Arborist.Proofs.Interest

/-!
# `Arborist.Proofs.Interest.Table`: callbacks filed under their kinds

The callbacks for a kind of node can be looked for among all callbacks, or be filed under their
kinds once, in a table with a row for every kind. `InterestTable.build` goes through the rules one
by one, numbers those in use and appends each of their callbacks to the row of its kind. It makes
the table of the interest (`InterestTable.build_eq`), so a row holds what the search finds.

`Dispatches` says what callbacks there are: those of the rules in use, in the order of the rules and
then of registration, each once and with the position of its rule. `catalog_dispatches_exactly` puts
this together with what makes a catalog.
-/

set_option autoImplicit false

namespace Arborist

/-! ### Rows -/

namespace NodeKind

/-- The row of a kind in a table, in the order of declaration. -/
def row (kind : NodeKind) : Nat := all.idxOf kind

/-- Every kind has a row. -/
theorem mem_all (kind : NodeKind) : kind ∈ all := by
  cases kind <;> decide

/-- No two kinds share a row. -/
theorem nodup_all : all.Nodup := by
  decide

/-- The row of a kind is where it is declared. -/
theorem getElem?_row (kind : NodeKind) : all[kind.row]? = some kind :=
  List.getElem?_idxOf (mem_all kind)

/-- A place in the order of declaration is the row of the kind declared there, since it is declared
once. -/
theorem row_eq_of_getElem? {kind : NodeKind} {i : Nat} (h : all[i]? = some kind) :
    kind.row = i := by
  have hlt := (List.getElem?_eq_some_iff.1 h).1
  exact ((List.getElem?_inj hlt nodup_all).1 (h.trans (getElem?_row kind).symm)).symm

end NodeKind

/-- The rules in use, and for each kind of node its callbacks. -/
structure InterestTable where
  rules : List ActiveRule := []
  byKind : List (List Subscriber) := List.replicate NodeKind.all.length []

namespace InterestTable

/-- Files a callback. -/
def push (t : InterestTable) (s : Subscriber) : InterestTable :=
  { t with byKind := t.byKind.modify s.subscription.kind.row (· ++ [s]) }

/-- Adds a rule with its callbacks, if it is in use. Its position is the number of rules so far. -/
def add (config : Config) (category : FileCategory) (t : InterestTable) (rule : Rule) :
    InterestTable :=
  if rule.descriptor.applicability.accepts category && config.isEnabled rule.descriptor then
    let active : ActiveRule := ⟨rule, config.severityOf rule.descriptor⟩
    rule.subscriptions.foldl (fun table s => table.push ⟨t.rules.length, active, s⟩)
      { t with rules := t.rules ++ [active] }
  else t

/-- The table of a catalog, rule by rule in the order of the catalog. -/
def build (catalog : Catalog) (config : Config) (category : FileCategory) : InterestTable :=
  catalog.rules.foldl (add config category) {}

/-- The row of a kind; none if the table is too short. -/
def callbacksFor? (t : InterestTable) (kind : NodeKind) : Option (List Subscriber) :=
  t.byKind[kind.row]?

/-- The number of callbacks in all rows together. -/
def subscriptionCount (t : InterestTable) : Nat := (t.byKind.map List.length).sum

/-- Callbacks sorted into rows. -/
def tabulate (subscribers : List Subscriber) : List (List Subscriber) :=
  NodeKind.all.map fun kind => subscribers.filter (·.subscription.kind = kind)

/-- A callback more in the list is a callback more in the row of its kind, and in no other row. It
goes to the end of the row, as it goes to the end of the list. -/
theorem modify_tabulate (subscribers : List Subscriber) (s : Subscriber) :
    (tabulate subscribers).modify s.subscription.kind.row (· ++ [s]) =
      tabulate (subscribers ++ [s]) := by
  apply List.ext_getElem?
  intro i
  rw [List.getElem?_modify, tabulate, tabulate, List.getElem?_map, List.getElem?_map]
  cases hkind : NodeKind.all[i]? with
  | none => simp
  | some kind =>
      have hrow := NodeKind.row_eq_of_getElem? hkind
      by_cases hsame : s.subscription.kind = kind
      · simp [hsame, hrow]
      · -- Kinds with one number would be one kind.
        have hother : s.subscription.kind.row ≠ i := by
          intro heq
          have hget := NodeKind.getElem?_row s.subscription.kind
          rw [heq, hkind] at hget
          exact hsame (Option.some.inj hget).symm
        simp [hsame, hother]

/-- Every callback is in one row, so the rows together are as long as the list. There is a row for
every kind, and each kind has one. -/
theorem sum_length_tabulate (subscribers : List Subscriber) :
    ((tabulate subscribers).map List.length).sum = subscribers.length := by
  induction subscribers with
  | nil => simp [tabulate]
  | cons s rest ih =>
      -- The kind of the callback is one of all kinds and occurs once among them.
      have hone : (NodeKind.all.map fun kind =>
          if s.subscription.kind = kind then 1 else 0).sum = 1 := by
        cases s.subscription.kind <;> decide
      have hrow : ∀ kind, ((s :: rest).filter (·.subscription.kind = kind)).length =
          (if s.subscription.kind = kind then 1 else 0) +
            (rest.filter (·.subscription.kind = kind)).length := by
        intro kind
        by_cases hsame : s.subscription.kind = kind
        · simp [hsame, Nat.add_comm]
        · simp [hsame]
      rw [tabulate, List.map_map] at ih ⊢
      simp only [Function.comp_def, hrow, List.sum_map_add] at ih ⊢
      rw [hone, ih, List.length_cons, Nat.add_comm]

/-- Callbacks that are filed one after the other end up as if all of them were sorted at once. The
induction is on those still to be filed. -/
theorem foldl_push (rules : List ActiveRule) (subscribers more : List Subscriber) :
    more.foldl push ⟨rules, tabulate subscribers⟩ = ⟨rules, tabulate (subscribers ++ more)⟩ := by
  induction more generalizing subscribers with
  | nil => simp
  | cons s more ih =>
      have hpush : push ⟨rules, tabulate subscribers⟩ s =
          ⟨rules, tabulate (subscribers ++ [s])⟩ := by
        rw [push, modify_tabulate]
      rw [List.foldl_cons, hpush, ih, List.append_assoc, List.singleton_append]

end InterestTable

/-! ### The table of an interest -/

namespace Interest

/-- A rule more in use. -/
def concat (i : Interest) (active : ActiveRule) : Interest :=
  { i with rules := i.rules ++ [active] }

/-- The callbacks of one more rule come last, with its position. -/
theorem subscribers_concat (i : Interest) (active : ActiveRule) :
    (i.concat active).subscribers = i.subscribers ++
      active.rule.subscriptions.map fun s => ⟨i.rules.length, active, s⟩ := by
  simp [subscribers, concat, List.zipIdx_append]

/-- There are as many callbacks as the rules in use register together. -/
theorem length_subscribers (i : Interest) :
    i.subscribers.length = (i.rules.map (·.rule.subscriptions.length)).sum := by
  have hrules : i.rules.zipIdx.map Prod.fst = i.rules := List.zipIdx_map_fst 0 i.rules
  conv_rhs => rw [← hrules, List.map_map]
  simp only [subscribers, List.length_flatMap, List.length_map, Function.comp_def]

/-- The callbacks of an interest as a table. -/
def table (i : Interest) : InterestTable := ⟨i.rules, InterestTable.tabulate i.subscribers⟩

/-- The row of a kind holds what a search among all callbacks finds for it. -/
theorem callbacksFor?_table (i : Interest) (kind : NodeKind) :
    i.table.callbacksFor? kind = some (i.subscribersOf kind) := by
  rw [InterestTable.callbacksFor?, table, InterestTable.tabulate, List.getElem?_map,
    NodeKind.getElem?_row]
  rfl

/-- The rows of the table hold all callbacks of the interest. -/
theorem subscriptionCount_table (i : Interest) :
    i.table.subscriptionCount = i.subscribers.length :=
  InterestTable.sum_length_tabulate i.subscribers

end Interest

namespace InterestTable

variable {config : Config} {category : FileCategory}

/-- Adding a rule to the table of an interest gives the table of the interest with that rule, or
leaves it as it is. This is the step of `foldl_add_table`. -/
theorem add_table (i : Interest) (rule : Rule) :
    add config category i.table rule =
      if rule.descriptor.applicability.accepts category && config.isEnabled rule.descriptor then
        (i.concat ⟨rule, config.severityOf rule.descriptor⟩).table
      else i.table := by
  rw [add]
  split
  · rw [Interest.table, Interest.table, Interest.subscribers_concat, ← foldl_push, List.foldl_map]
    rfl
  · rfl

/-- The rules from the front of the list on, when some are there already. The positions of the
others go on from those, so the induction needs the rules so far. -/
theorem foldl_add_table (i : Interest) (rules : List Rule) :
    rules.foldl (add config category) i.table =
      Interest.table { i with
        rules := i.rules ++ (Interest.build ⟨rules⟩ config category).rules } := by
  induction rules generalizing i with
  | nil => simp [Interest.build]
  | cons rule rules ih =>
      rw [List.foldl_cons, add_table]
      by_cases huse : (rule.descriptor.applicability.accepts category &&
          config.isEnabled rule.descriptor) = true
      · -- The rule is in use and gets the next position; otherwise it gets none.
        rw [if_pos huse, ih]
        simp [Interest.build, Interest.concat, huse]
      · rw [if_neg huse, ih]
        simp [Interest.build, huse]

/-- Filing the callbacks rule by rule gives the table of the interest. It is the run of `add_table`
that starts with no rules. -/
theorem build_eq (catalog : Catalog) (config : Config) (category : FileCategory) :
    build catalog config category = (Interest.build catalog config category).table := by
  have hempty : ({} : InterestTable) = Interest.table ⟨category, []⟩ := by
    rfl
  rw [build, hempty, foldl_add_table, List.nil_append]
  rfl

end InterestTable

/-! ### Dispatch -/

instance (config : Config) (category : FileCategory) (rule : Rule) :
    Decidable (rule.InUse config category) :=
  decidable_of_iff _ Interest.picks_iff

namespace Rule

/-- The rules in use, in their order. -/
def pick (config : Config) (category : FileCategory) (rules : List Rule) : List Rule :=
  rules.filter fun rule => rule.InUse config category

end Rule

/-- What callbacks an interest and its table must have for the rules of a catalog. -/
structure Dispatches (config : Config) (category : FileCategory) (rules : List Rule)
    (i : Interest) (t : InterestTable) : Prop where
  in_use : i.rules.map (·.rule) = Rule.pick config category rules
  /-- In the order of the rules and then of registration. -/
  callbacks : ∀ kind, (i.subscribersOf kind).map (fun s => (s.active.rule, s.subscription)) =
    (Rule.pick config category rules).flatMap fun rule =>
      (rule.subscriptions.filter (·.kind = kind)).map fun s => (rule, s)
  tagged : ∀ kind, ∀ s ∈ i.subscribersOf kind, i.rules[s.position]? = some s.active
  once : ∀ kind, ((i.subscribersOf kind).map fun s => (s.position, s.subscription.slot)).Nodup
  /-- Different positions are different rules. -/
  apart : (i.rules.map (·.rule.descriptor.code)).Nodup
  table_rules : t.rules = i.rules
  table_rows : ∀ kind, t.callbacksFor? kind = some (i.subscribersOf kind)
  count : t.subscriptionCount =
    ((Rule.pick config category rules).map (·.subscriptions.length)).sum

namespace Interest

variable {config : Config} {category : FileCategory}

/-- The rules in use are those that the settings and the category pick, in the order of the
catalog. -/
theorem map_rule_build (rules : List Rule) :
    (build ⟨rules⟩ config category).rules.map (·.rule) = Rule.pick config category rules := by
  have hpick : ∀ rule : Rule, (rule.descriptor.applicability.accepts category &&
      config.isEnabled rule.descriptor) = decide (rule.InUse config category) := by
    intro rule
    rw [Bool.eq_iff_iff, decide_eq_true_iff]
    exact picks_iff
  simp [build, Rule.pick, hpick, Function.comp_def]

/-- The callbacks for a kind, rule by rule: filtering all callbacks by kind is filtering those of
each rule. -/
theorem map_subscribersOf (i : Interest) (kind : NodeKind) :
    (i.subscribersOf kind).map (fun s => (s.active.rule, s.subscription)) =
      (i.rules.map (·.rule)).flatMap fun rule =>
        (rule.subscriptions.filter (·.kind = kind)).map fun s => (rule, s) := by
  have hrow : ∀ ranked : ActiveRule × Nat,
      ((ranked.1.rule.subscriptions.map fun s => (⟨ranked.2, ranked.1, s⟩ : Subscriber)).filter
        (·.subscription.kind = kind)).map (fun s => (s.active.rule, s.subscription)) =
      (ranked.1.rule.subscriptions.filter (·.kind = kind)).map fun s => (ranked.1.rule, s) := by
    intro ranked
    simp [List.filter_map, Function.comp_def]
  have hrules : i.rules.zipIdx.map Prod.fst = i.rules := List.zipIdx_map_fst 0 i.rules
  conv_rhs => rw [← hrules, List.map_map, List.flatMap_map]
  rw [subscribersOf, subscribers, List.filter_flatMap, List.map_flatMap]
  simp only [hrow, Function.comp_def]

/-- The interest of a catalog dispatches the callbacks of its rules. That each callback comes once
needs the rules to be sound, and that positions tell rules apart needs their codes to differ; a
catalog has both. -/
theorem dispatches_build {rules : List Rule} {catalog : Catalog}
    (h : Catalog.build rules = .ok catalog) (config : Config) (category : FileCategory) :
    Dispatches config category rules (build catalog config category)
      (InterestTable.build catalog config category) := by
  obtain ⟨hsound, hdistinct, rfl⟩ := Catalog.build_eq_ok_iff.1 h
  have hactive : ∀ active ∈ (build ⟨rules⟩ config category).rules, active.rule.Sound :=
    fun active hmem => hsound active.rule (mem_rules_of_mem_build hmem)
  have hrules := @map_rule_build config category rules
  -- The table that is filled callback by callback is the one with all of them sorted into rows.
  rw [InterestTable.build_eq]
  exact {
    in_use := hrules
    callbacks := fun kind => by rw [map_subscribersOf, hrules]
    tagged := fun kind s hs => (mem_subscribersOf.1 hs).1
    once := fun kind => by
      rw [List.Nodup, List.pairwise_map]
      refine (pairwise_subscribersOf hactive kind).imp fun hne heq => hne ?_
      exact Prod.mk.inj heq
    apart := nodup_codes_build hdistinct config category
    table_rules := rfl
    table_rows := callbacksFor?_table _
    count := by
      rw [subscriptionCount_table, length_subscribers, ← hrules, List.map_map]
      rfl }

end Interest

/-- Rules make a catalog exactly if they go together. If they do not, then the error is about the
first of them that does not go together with those before it; and it makes no difference by which
calls a rule registers its callbacks. For a catalog, the callbacks for a kind of node are those of
the rules in use, each once, in the order of the rules and then of registration. -/
theorem catalog_dispatches_exactly (rules : List Rule) :
    ((∃ catalog, Catalog.build rules = .ok catalog) ↔ Rule.GoTogether rules) ∧
    (∀ e, Catalog.build rules = .error e ↔
      ∃ before rule after, rules = before ++ rule :: after ∧ Rule.GoTogether before ∧
        ¬ Rule.GoTogether (before ++ [rule]) ∧ rule.Offends before e) ∧
    (∀ rule ∈ rules, ∀ calls : List Registration,
      calls.flatMap Registration.subscriptions = rule.subscriptions →
        (Registrar.run rule.descriptor.name calls).Settles rule) ∧
    ∀ catalog config category, Catalog.build rules = .ok catalog →
      Dispatches config category rules (Interest.build catalog config category)
        (InterestTable.build catalog config category) := by
  refine ⟨Catalog.exists_build_eq_ok_iff, fun e => ?_, fun rule _ calls hcalls => ?_,
    fun catalog config category hbuild => ?_⟩
  · rw [Catalog.build_eq_error_iff]
    constructor
    · rintro ⟨before, rule, after, rfl, hbefore, hoffends⟩
      -- Without the rules behind the offending one the error is the same.
      have herror : Catalog.build (before ++ [rule]) = .error e :=
        Catalog.build_eq_error_iff.2 ⟨before, rule, [], rfl, hbefore, hoffends⟩
      refine ⟨before, rule, after, rfl, hbefore, fun htogether => ?_, hoffends⟩
      obtain ⟨catalog, hok⟩ := Catalog.exists_build_eq_ok_iff.2 htogether
      rw [herror] at hok
      cases hok
    · rintro ⟨before, rule, after, heq, hbefore, -, hoffends⟩
      exact ⟨before, rule, after, heq, hbefore, hoffends⟩
  · exact Registrar.settles_run hcalls
  · exact Interest.dispatches_build hbuild config category

end Arborist
