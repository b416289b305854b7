import Arborist.Proofs.Catalog
import Arborist.Proofs.Rule.Template
import Arborist.Proofs.Text.WhiteSpace

/-!
# `Arborist.Proofs.Catalog.Verdict`: which rules go together, and which one is to blame

`Rule.GoTogether` says what a list of rules must be, without a word about the order in which things
are checked: descriptors are complete, codes differ, names differ, and no rule has two callbacks at
one place, where a place is a kind of node and a slot. A catalog is built from exactly these lists
(`Catalog.exists_build_eq_ok_iff`). From any other list comes an error about the first rule that
does not go together with those before it, and `Rule.Offends` says which error it is
(`Catalog.build_eq_error_iff`).

A rule registers its callbacks by calls. A registrar takes them one by one and keeps its complaints
to itself until the end. `Registrar.settles_run` says that this comes to the same as a look at the
whole list of callbacks: the registrar has either all of them and no complaint, or it complains
first about the first one whose place is taken.
-/

set_option autoImplicit false

namespace Arborist

/-! ### Descriptors -/

namespace Descriptor

/-- Code, name and message are there, and the message is a template. -/
structure Complete (d : Descriptor) : Prop where
  code : ¬ Text.Blank d.code.toList
  name : ¬ Text.Blank d.name.toList
  message : ¬ Text.Blank d.message.toList
  template : Template.Balanced d.message.toList

/-- The first thing that a descriptor lacks, in words. -/
inductive Lacks (d : Descriptor) : String → Prop where
  | code (h : Text.Blank d.code.toList) : Lacks d "empty rule code"
  | name (hcode : ¬ Text.Blank d.code.toList) (h : Text.Blank d.name.toList) :
      Lacks d "empty rule name"
  | message (hcode : ¬ Text.Blank d.code.toList) (hname : ¬ Text.Blank d.name.toList)
      (h : Text.Blank d.message.toList) : Lacks d "empty message template"
  | template (hcode : ¬ Text.Blank d.code.toList) (hname : ¬ Text.Blank d.name.toList)
      (hmessage : ¬ Text.Blank d.message.toList) (h : ¬ Template.Balanced d.message.toList) :
      Lacks d "unbalanced braces in message template"

/-- The check for a blank text trims it and asks whether anything is left. That is so exactly if the
text is made of white space. -/
theorem isBlank_iff {text : String} : isBlank text = true ↔ Text.Blank text.toList := by
  rw [isBlank, List.isEmpty_iff, Text.trim_eq_nil_iff]

/-- A descriptor is complete, or it lacks what the check says. The fields are asked for in the order
code, name, message and template, so that each case knows that nothing was wrong before it. -/
theorem problem?_cases (d : Descriptor) :
    (d.problem? = none ∧ d.Complete) ∨ ∃ problem, d.problem? = some problem ∧ d.Lacks problem := by
  have hbalanced : (!d.message.isBalanced) = true ↔ ¬ Template.Balanced d.message.toList := by
    rw [← Template.isBalanced_iff, Bool.not_eq_true', Bool.not_eq_true]
  rw [problem?]
  by_cases hcode : Text.Blank d.code.toList
  · exact .inr ⟨_, if_pos (isBlank_iff.2 hcode), .code hcode⟩
  rw [if_neg (mt isBlank_iff.1 hcode)]
  by_cases hname : Text.Blank d.name.toList
  · exact .inr ⟨_, if_pos (isBlank_iff.2 hname), .name hcode hname⟩
  rw [if_neg (mt isBlank_iff.1 hname)]
  by_cases hmessage : Text.Blank d.message.toList
  · exact .inr ⟨_, if_pos (isBlank_iff.2 hmessage), .message hcode hname hmessage⟩
  rw [if_neg (mt isBlank_iff.1 hmessage)]
  by_cases htemplate : Template.Balanced d.message.toList
  · exact .inl ⟨if_neg fun h => hbalanced.1 h htemplate, hcode, hname, hmessage, htemplate⟩
  · exact .inr ⟨_, if_pos (hbalanced.2 htemplate), .template hcode hname hmessage htemplate⟩

/-- What a descriptor lacks is one of the four things that make it complete. -/
theorem Lacks.not_complete {d : Descriptor} {p : String} (h : d.Lacks p) : ¬ d.Complete := by
  intro hcomplete
  cases h with
  | code h => exact hcomplete.code h
  | name _ h => exact hcomplete.name h
  | message _ _ h => exact hcomplete.message h
  | template _ _ _ h => exact h hcomplete.template

/-- The check has no objection to a descriptor exactly if it is complete. -/
theorem problem?_eq_none_iff {d : Descriptor} : d.problem? = none ↔ d.Complete := by
  rcases d.problem?_cases with ⟨hnone, hcomplete⟩ | ⟨problem, hsome, hlacks⟩
  · simp [hnone, hcomplete]
  · simp [hsome, hlacks.not_complete]

/-- The objection to a descriptor names the first thing that it lacks. So there is at most one
problem that a descriptor `Lacks`, although the relation does not say so. -/
theorem problem?_eq_some_iff {d : Descriptor} {problem : String} :
    d.problem? = some problem ↔ d.Lacks problem := by
  constructor
  · intro h
    rcases d.problem?_cases with ⟨hnone, -⟩ | ⟨found, hsome, hlacks⟩
    · rw [hnone] at h
      cases h
    · rw [hsome, Option.some.injEq] at h
      exact h ▸ hlacks
  · intro h
    cases h with
    | code h => simp [problem?, isBlank_iff, h]
    | name hcode h => simp [problem?, isBlank_iff, hcode, h]
    | message hcode hname h => simp [problem?, isBlank_iff, hcode, hname, h]
    -- The last test is about the braces of the message, the first three about blank texts.
    | template hcode hname hmessage h =>
        rw [← Template.isBalanced_iff] at h
        simp [problem?, isBlank_iff, hcode, hname, hmessage, h]

end Descriptor

/-! ### Places of callbacks -/

namespace Subscription

/-- Where a callback is registered. -/
def place (s : Subscription) : NodeKind × String := (s.kind, s.slot)

/-- `s` is the first callback of the list that stands at the place of an earlier one. -/
def FirstRepeat (all : List Subscription) (s : Subscription) : Prop :=
  ∃ front back, all = front ++ s :: back ∧ (front.map place).Nodup ∧ s.place ∈ front.map place

/-- The test whether a place is taken, in terms of places: it compares kind and slot of each
callback before. -/
theorem place_mem_iff {before : List Subscription} {s : Subscription} :
    s.place ∈ before.map place ↔
      (before.any fun b => b.kind = s.kind && b.slot = s.slot) = true := by
  simp [place]

end Subscription

namespace Rule

open Subscription (place)

/-- Two ways to say that no place is used twice. The first is that of this module, the second the
one of `Rule.Sound`. -/
theorem nodup_places_iff {subscriptions : List Subscription} :
    (subscriptions.map place).Nodup ↔ subscriptions.Pairwise fun a b => ¬ SameSlot a b := by
  rw [List.Nodup, List.pairwise_map]
  simp [place, SameSlot]

/-- The search for a repeated place, begun behind callbacks that repeat none. It ends at the first
callback whose place is taken by one before, wherever the search was begun. -/
theorem repeatedSubscription?_eq_some_iff {before subscriptions : List Subscription}
    {s : Subscription} (hbefore : (before.map place).Nodup) :
    repeatedSubscription? before subscriptions = some s ↔
      ∃ front back, subscriptions = front ++ s :: back ∧ ((before ++ front).map place).Nodup ∧
        s.place ∈ (before ++ front).map place := by
  induction subscriptions generalizing before with
  | nil => simp [repeatedSubscription?]
  | cons t rest ih =>
      rw [repeatedSubscription?]
      by_cases hrepeats : t.place ∈ before.map place
      · rw [if_pos (Subscription.place_mem_iff.1 hrepeats), Option.some.injEq]
        constructor
        · rintro rfl
          exact ⟨[], rest, rfl, by simpa using hbefore, by simpa using hrepeats⟩
        · -- Had the search gone past `t`, its place would stand twice before `s`.
          rintro ⟨front, back, heq, hnodup, -⟩
          cases front with
          | nil => exact (List.cons.inj heq).1
          | cons u front =>
              obtain ⟨rfl, rfl⟩ := List.cons.inj heq
              rw [List.map_append, List.nodup_append] at hnodup
              exact absurd rfl (hnodup.2.2 _ hrepeats _ (by simp))
      · -- The place of `t` is new, so the search goes on with one callback more and no place twice.
        rw [if_neg (mt Subscription.place_mem_iff.2 hrepeats)]
        have hnext : ((before ++ [t]).map place).Nodup := by
          rw [List.map_append, List.map_singleton]
          exact List.nodup_append.2 ⟨hbefore, by simp, by grind⟩
        rw [ih hnext]
        constructor
        · rintro ⟨front, back, rfl, hnodup, hmem⟩
          exact ⟨t :: front, back, rfl, by simpa using hnodup, by simpa using hmem⟩
        · rintro ⟨front, back, heq, hnodup, hmem⟩
          cases front with
          | nil =>
              obtain ⟨rfl, rfl⟩ := List.cons.inj heq
              rw [List.append_nil] at hmem
              exact absurd hmem hrepeats
          | cons u front =>
              obtain ⟨rfl, rfl⟩ := List.cons.inj heq
              exact ⟨front, back, rfl, by simpa using hnodup, by simpa using hmem⟩

/-- The search over a whole list finds its first repeated callback. -/
theorem repeatedSubscription?_nil_eq_some_iff {subscriptions : List Subscription}
    {s : Subscription} :
    repeatedSubscription? [] subscriptions = some s ↔ Subscription.FirstRepeat subscriptions s :=
  repeatedSubscription?_eq_some_iff List.nodup_nil

/-- The search over a whole list finds nothing exactly if no place is used twice. -/
theorem repeatedSubscription?_nil_eq_none_iff {subscriptions : List Subscription} :
    repeatedSubscription? [] subscriptions = none ↔ (subscriptions.map place).Nodup := by
  simp [repeatedSubscription?_eq_none_iff, nodup_places_iff]

end Rule

/-! ### Registration by calls -/

/-- A call by which a rule registers callbacks. -/
inductive Registration where
  /-- For one kind, in the slot that is meant if none is given. -/
  | on (kind : NodeKind) (callback : Scene → Reaction)
  | onSlot (kind : NodeKind) (slot : String) (callback : Scene → Reaction)
  /-- For several kinds, in that slot too. -/
  | onEach (kinds : List NodeKind) (callback : Scene → Reaction)

/-- The callbacks that a call asks for. -/
def Registration.subscriptions : Registration → List Subscription
  | .on kind callback => [⟨kind, Subscription.defaultSlot, callback⟩]
  | .onSlot kind slot callback => [⟨kind, slot, callback⟩]
  | .onEach kinds callback => Subscription.onEach kinds callback

/-- Takes the calls of one rule. -/
structure Registrar where
  /-- The name of the rule. -/
  rule : String
  subscriptions : List Subscription := []
  errors : List CatalogError := []

namespace Registrar

open Subscription (place)

/-- Takes a callback, or notes that its place is taken. -/
def push (r : Registrar) (kind : NodeKind) (slot : String) (callback : Scene → Reaction) :
    Registrar :=
  if r.subscriptions.any fun s => s.kind = kind && s.slot = slot then
    { r with errors := r.errors ++ [.duplicateSubscription r.rule kind slot] }
  else { r with subscriptions := r.subscriptions ++ [⟨kind, slot, callback⟩] }

/-- Takes a call. -/
def register (r : Registrar) : Registration → Registrar
  | .on kind callback => r.push kind Subscription.defaultSlot callback
  | .onSlot kind slot callback => r.push kind slot callback
  | .onEach kinds callback =>
    kinds.foldl (fun r kind => r.push kind Subscription.defaultSlot callback) r

/-- Takes all calls of a rule. -/
def run (rule : String) (calls : List Registration) : Registrar :=
  calls.foldl register { rule }

/-- Takes a callback as a whole. -/
def take (r : Registrar) (s : Subscription) : Registrar := r.push s.kind s.slot s.callback

/-- The three kinds of calls come to the same: their callbacks are taken one by one. So what follows
is about lists of callbacks and does not depend on how they were grouped into calls. -/
theorem run_eq (rule : String) (calls : List Registration) :
    run rule calls = (calls.flatMap Registration.subscriptions).foldl take { rule } := by
  have hcall : ∀ (r : Registrar) (call : Registration),
      r.register call = call.subscriptions.foldl take r := by
    intro r call
    cases call with
    | on kind callback => rfl
    | onSlot kind slot callback => rfl
    -- One callback for each kind is a map over the kinds.
    | onEach kinds callback =>
        rw [Registration.subscriptions, Subscription.onEach, List.foldl_map]
        rfl
  rw [run, List.foldl_flatMap]
  congr 1
  funext r call
  exact hcall r call

/-- A callback at a place that is taken is not kept. The complaint about it comes behind the earlier
ones. -/
theorem take_of_mem {r : Registrar} {s : Subscription} (h : s.place ∈ r.subscriptions.map place) :
    r.take s =
      { r with errors := r.errors ++ [.duplicateSubscription r.rule s.kind s.slot] } := by
  rw [take, push, if_pos (Subscription.place_mem_iff.1 h)]

/-- A callback at a free place is kept, behind the earlier ones, and there is no complaint. -/
theorem take_of_not_mem {r : Registrar} {s : Subscription}
    (h : s.place ∉ r.subscriptions.map place) :
    r.take s = { r with subscriptions := r.subscriptions ++ [s] } := by
  rw [take, push, if_neg (mt Subscription.place_mem_iff.2 h)]

/-- Later callbacks do not take the first complaint back: complaints are only ever added at the
end. -/
theorem head?_errors_foldl_take {r : Registrar} {e : CatalogError} (h : r.errors.head? = some e)
    (subscriptions : List Subscription) :
    (subscriptions.foldl take r).errors.head? = some e := by
  induction subscriptions generalizing r with
  | nil => exact h
  | cons s rest ih =>
      rw [List.foldl_cons]
      apply ih
      by_cases hplace : s.place ∈ r.subscriptions.map place
      · rw [take_of_mem hplace, List.head?_append, h]
        rfl
      · rw [take_of_not_mem hplace]
        exact h

/-- As long as there is no complaint, the registrar knows the callbacks so far, and what it will
complain about first is what a search behind these callbacks finds. -/
theorem foldl_take {r : Registrar} (h : r.errors = []) (subscriptions : List Subscription) :
    (subscriptions.foldl take r).errors.head? =
        (Rule.repeatedSubscription? r.subscriptions subscriptions).map
          (fun s => .duplicateSubscription r.rule s.kind s.slot) ∧
      ((subscriptions.foldl take r).errors = [] →
        (subscriptions.foldl take r).subscriptions = r.subscriptions ++ subscriptions) := by
  induction subscriptions generalizing r with
  | nil => simp [Rule.repeatedSubscription?, h]
  | cons s rest ih =>
      rw [List.foldl_cons, Rule.repeatedSubscription?]
      by_cases hplace : s.place ∈ r.subscriptions.map place
      · rw [if_pos (Subscription.place_mem_iff.1 hplace)]
        have hfirst : (r.take s).errors.head? =
            some (.duplicateSubscription r.rule s.kind s.slot) := by
          rw [take_of_mem hplace, h]
          rfl
        -- Later complaints come behind the first one, which therefore stays the first.
        have hlast := head?_errors_foldl_take hfirst rest
        refine ⟨hlast, fun hnone => ?_⟩
        rw [hnone] at hlast
        cases hlast
      · rw [if_neg (mt Subscription.place_mem_iff.2 hplace), take_of_not_mem hplace]
        have hrest := ih (r := { r with subscriptions := r.subscriptions ++ [s] }) h
        simpa using hrest

/-- The first complaint of a registrar is about the first callback at a place that is taken. There
may be further complaints, but only the first one becomes an error of the catalog. -/
theorem head?_errors_run {rule : String} {calls : List Registration} {e : CatalogError} :
    (run rule calls).errors.head? = some e ↔
      ∃ s, Subscription.FirstRepeat (calls.flatMap Registration.subscriptions) s ∧
        e = .duplicateSubscription rule s.kind s.slot := by
  have hrun := (foldl_take (r := { rule }) rfl (calls.flatMap Registration.subscriptions)).1
  rw [run_eq, hrun, Option.map_eq_some_iff]
  constructor
  · rintro ⟨s, hs, rfl⟩
    exact ⟨s, Rule.repeatedSubscription?_nil_eq_some_iff.1 hs, rfl⟩
  · rintro ⟨s, hs, rfl⟩
    exact ⟨s, Rule.repeatedSubscription?_nil_eq_some_iff.2 hs, rfl⟩

/-- A registrar has no complaint exactly if no two callbacks of the calls have the same place. -/
theorem errors_run_eq_nil_iff {rule : String} {calls : List Registration} :
    (run rule calls).errors = [] ↔
      ((calls.flatMap Registration.subscriptions).map place).Nodup := by
  have hrun := (foldl_take (r := { rule }) rfl (calls.flatMap Registration.subscriptions)).1
  rw [run_eq, ← List.head?_eq_none_iff, hrun, Option.map_eq_none_iff]
  exact Rule.repeatedSubscription?_nil_eq_none_iff

/-- A registrar without complaints has taken every callback, in the order of the calls. -/
theorem subscriptions_run {rule : String} {calls : List Registration}
    (h : (run rule calls).errors = []) :
    (run rule calls).subscriptions = calls.flatMap Registration.subscriptions := by
  rw [run_eq] at h ⊢
  exact (foldl_take (r := { rule }) rfl (calls.flatMap Registration.subscriptions)).2 h

/-- What a registrar must know in the end of a rule. -/
structure Settles (r : Registrar) (rule : Rule) : Prop where
  accepts : r.errors = [] ↔ (rule.subscriptions.map place).Nodup
  holds : r.errors = [] → r.subscriptions = rule.subscriptions
  blames : ∀ e, r.errors.head? = some e ↔
    ∃ s, Subscription.FirstRepeat rule.subscriptions s ∧
      e = .duplicateSubscription rule.descriptor.name s.kind s.slot

/-- The registrar of a rule knows in the end what the rule needs to know. Only the callbacks of the
calls matter for this, and not by which calls they were registered. -/
theorem settles_run {rule : Rule} {calls : List Registration}
    (h : calls.flatMap Registration.subscriptions = rule.subscriptions) :
    (run rule.descriptor.name calls).Settles rule where
  accepts := h ▸ errors_run_eq_nil_iff
  holds hnone := h ▸ subscriptions_run hnone
  blames _ := h ▸ head?_errors_run

end Registrar

/-! ### Rules in a list -/

namespace Rule

open Subscription (place)

/-- Rules that make a catalog. -/
structure GoTogether (rules : List Rule) : Prop where
  complete : ∀ rule ∈ rules, rule.descriptor.Complete
  codes : (rules.map (·.descriptor.code)).Nodup
  names : (rules.map (·.descriptor.name)).Nodup
  places : ∀ rule ∈ rules, (rule.subscriptions.map place).Nodup

/-- What is said against a rule behind others: the first of four things. -/
inductive Offends (before : List Rule) (rule : Rule) : CatalogError → Prop where
  /-- The rule is called by its name only if it has no code at all. -/
  | descriptor {problem : String} (h : rule.descriptor.Lacks problem) :
      Offends before rule (.invalidDescriptor
        (if rule.descriptor.code = "" then rule.descriptor.name else rule.descriptor.code) problem)
  | code (hcomplete : rule.descriptor.Complete)
      (h : rule.descriptor.code ∈ before.map (·.descriptor.code)) :
      Offends before rule (.duplicateRule rule.descriptor.code)
  | name (hcomplete : rule.descriptor.Complete)
      (hcode : rule.descriptor.code ∉ before.map (·.descriptor.code))
      (h : rule.descriptor.name ∈ before.map (·.descriptor.name)) :
      Offends before rule (.duplicateRule rule.descriptor.name)
  | place {s : Subscription} (hcomplete : rule.descriptor.Complete)
      (hcode : rule.descriptor.code ∉ before.map (·.descriptor.code))
      (hname : rule.descriptor.name ∉ before.map (·.descriptor.name))
      (h : Subscription.FirstRepeat rule.subscriptions s) :
      Offends before rule (.duplicateSubscription rule.descriptor.name s.kind s.slot)

/-- The error of a check is what is said against the rule. The four objections exclude each other,
because each is made only if those before it are not, so the check and `Rule.Offends` are compared
objection by objection in both directions. -/
theorem check_eq_error_iff {before : List Rule} {rule : Rule} {e : CatalogError} :
    rule.check before = .error e ↔ rule.Offends before e := by
  have hcodes : (before.any (·.descriptor.code = rule.descriptor.code)) = true ↔
      rule.descriptor.code ∈ before.map (·.descriptor.code) := by
    simp
  have hnames : (before.any (·.descriptor.name = rule.descriptor.name)) = true ↔
      rule.descriptor.name ∈ before.map (·.descriptor.name) := by
    simp
  constructor
  · -- From the check to the objection: the tests are gone through in their order, and the first
    -- that fails gives the case.
    intro h
    rw [check] at h
    cases hproblem : rule.descriptor.problem? with
    | some problem =>
        simp only [hproblem, String.isEmpty_iff, Except.error.injEq] at h
        rw [← h]
        exact .descriptor (Descriptor.problem?_eq_some_iff.1 hproblem)
    | none =>
        have hcomplete := Descriptor.problem?_eq_none_iff.1 hproblem
        simp only [hproblem] at h
        by_cases hcode : rule.descriptor.code ∈ before.map (·.descriptor.code)
        · rw [if_pos (hcodes.2 hcode), Except.error.injEq] at h
          rw [← h]
          exact .code hcomplete hcode
        rw [if_neg (mt hcodes.1 hcode)] at h
        by_cases hname : rule.descriptor.name ∈ before.map (·.descriptor.name)
        · rw [if_pos (hnames.2 hname), Except.error.injEq] at h
          rw [← h]
          exact .name hcomplete hcode hname
        rw [if_neg (mt hnames.1 hname)] at h
        cases hrepeated : repeatedSubscription? [] rule.subscriptions with
        | some s =>
            simp only [hrepeated, Except.error.injEq] at h
            rw [← h]
            exact .place hcomplete hcode hname (repeatedSubscription?_nil_eq_some_iff.1 hrepeated)
        | none => simp [hrepeated] at h
  · intro h
    cases h with
    | descriptor h => simp [check, Descriptor.problem?_eq_some_iff.2 h]
    | code hcomplete h =>
        simp only [check, Descriptor.problem?_eq_none_iff.2 hcomplete, if_pos (hcodes.2 h)]
    | name hcomplete hcode h =>
        simp only [check, Descriptor.problem?_eq_none_iff.2 hcomplete, if_neg (mt hcodes.1 hcode),
          if_pos (hnames.2 h)]
    | place hcomplete hcode hname h =>
        simp only [check, Descriptor.problem?_eq_none_iff.2 hcomplete, if_neg (mt hcodes.1 hcode),
          if_neg (mt hnames.1 hname), repeatedSubscription?_nil_eq_some_iff.2 h]

end Rule

namespace Catalog

/-- Rules make a catalog exactly if they go together. `build_eq_ok_iff` has the same condition as
one on pairs of rules, which splits into one on codes and one on names. -/
theorem exists_build_eq_ok_iff {rules : List Rule} :
    (∃ catalog, build rules = .ok catalog) ↔ Rule.GoTogether rules := by
  have hdistinct : rules.Pairwise Rule.Distinct ↔
      (rules.map (·.descriptor.code)).Nodup ∧ (rules.map (·.descriptor.name)).Nodup := by
    simp only [List.Nodup, List.pairwise_map]
    exact List.pairwise_and_iff
  simp only [build_eq_ok_iff, exists_and_left, exists_eq, and_true, hdistinct]
  constructor
  · rintro ⟨hsound, hcodes, hnames⟩
    exact {
      complete := fun rule hrule => Descriptor.problem?_eq_none_iff.1 (hsound rule hrule).descriptor
      codes := hcodes
      names := hnames
      places := fun rule hrule => Rule.nodup_places_iff.2 (hsound rule hrule).slots }
  · intro h
    refine ⟨fun rule hrule => ?_, h.codes, h.names⟩
    exact ⟨Descriptor.problem?_eq_none_iff.2 (h.complete rule hrule),
      Rule.nodup_places_iff.1 (h.places rule hrule)⟩

/-- The check stops at the first rule that does not pass, and all rules before that one have passed.
The induction follows the check, which moves each rule that passes to those before. -/
theorem checkFrom_eq_error_iff {before rules : List Rule} {e : CatalogError} :
    checkFrom before rules = .error e ↔
      ∃ front rule back, rules = front ++ rule :: back ∧ checkFrom before front = .ok () ∧
        rule.check (before ++ front) = .error e := by
  induction rules generalizing before with
  | nil => simp [checkFrom]
  | cons first rest ih =>
      cases hfirst : first.check before with
      | error f =>
          -- The check ends here, so no rule can stand in front of the one that is complained about.
          have hstep : checkFrom before (first :: rest) = .error f := by
            rw [checkFrom, hfirst]
            rfl
          rw [hstep, Except.error.injEq]
          constructor
          · rintro rfl
            exact ⟨[], first, rest, rfl, rfl, by rw [List.append_nil, hfirst]⟩
          · rintro ⟨front, rule, back, heq, hfront, hrule⟩
            cases front with
            | nil =>
                obtain ⟨rfl, rfl⟩ := List.cons.inj heq
                rw [List.append_nil, hfirst] at hrule
                exact Except.error.inj hrule
            | cons other front =>
                obtain ⟨rfl, rfl⟩ := List.cons.inj heq
                rw [checkFrom, hfirst] at hfront
                cases hfront
      | ok u =>
          -- The check goes on, so `first` is one of the rules in front.
          have hstep : ∀ others,
              checkFrom before (first :: others) = checkFrom (before ++ [first]) others := by
            intro others
            rw [checkFrom, hfirst]
            rfl
          rw [hstep, ih]
          constructor
          · rintro ⟨front, rule, back, rfl, hfront, hrule⟩
            exact ⟨first :: front, rule, back, rfl, by rw [hstep, hfront], by simpa using hrule⟩
          · rintro ⟨front, rule, back, heq, hfront, hrule⟩
            cases front with
            | nil =>
                obtain ⟨rfl, rfl⟩ := List.cons.inj heq
                rw [List.append_nil, hfirst] at hrule
                cases hrule
            | cons other front =>
                obtain ⟨rfl, rfl⟩ := List.cons.inj heq
                rw [hstep] at hfront
                exact ⟨front, rule, back, rfl, hfront, by simpa using hrule⟩

/-- A catalog is refused with the error of the first check that fails. -/
theorem build_eq_error {rules : List Rule} {e : CatalogError} :
    build rules = .error e ↔ checkFrom [] rules = .error e := by
  rw [build]
  cases checkFrom [] rules <;> simp [bind, Except.bind, pure, Except.pure]

/-- There is a catalog exactly if all checks pass. -/
theorem exists_build_iff_checkFrom {rules : List Rule} :
    (∃ catalog, build rules = .ok catalog) ↔ checkFrom [] rules = .ok () := by
  rw [build]
  cases checkFrom [] rules <;> simp [bind, Except.bind, pure, Except.pure]

/-- The error is about the first rule that does not go together with those before it. Together with
`exists_build_eq_ok_iff` this decides for every list of rules what comes of it. -/
theorem build_eq_error_iff {rules : List Rule} {e : CatalogError} :
    build rules = .error e ↔
      ∃ before rule after, rules = before ++ rule :: after ∧ Rule.GoTogether before ∧
        rule.Offends before e := by
  simp only [build_eq_error, checkFrom_eq_error_iff, List.nil_append, Rule.check_eq_error_iff,
    ← exists_build_iff_checkFrom, exists_build_eq_ok_iff]

end Catalog

end Arborist
