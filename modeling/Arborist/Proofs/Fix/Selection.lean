import Arborist.Proofs.Fix.Resolver
import Arborist.Proofs.Reporter
import Mathlib.Data.List.Induction

/-!
# `Arborist.Proofs.Fix.Selection`: what becomes of each proposal

The resolver neither loses nor invents proposals, and it selects greedily. To say so, each proposal
is given its place in the input, since two proposals may be equal and still fare differently.
`Tally` is a resolution with places; without them it is what the resolver computes
(`resolution_tally`).

Proposals that are out on their own are told apart by `judge`. The others are candidates and are
considered in a fixed order, `Earlier`, which has no ties because the place comes last. What one
candidate does to the tally is `Settled.accept`, and the whole run is `settled_foldl_accept`: every
candidate considered so far is accepted, in order, or lost to the first accepted one that it
conflicts with. `resolve_selects` puts this together.
-/

set_option autoImplicit false

namespace Arborist

/-! ### Places -/

section Places

variable {α β γ : Type}

/-- What `f` makes of the elements of a list, with their places in it. -/
def placed (f : α → Option β) (l : List α) : List (β × Nat) :=
  l.zipIdx.filterMap fun (a, i) => (f a).map (·, i)

/-- Without the places, nothing but the results of `f` is left, in the order of the list. -/
theorem map_fst_placed (f : α → Option β) (l : List α) :
    (placed f l).map (·.1) = l.filterMap f := by
  have hfst : l.filterMap f = (l.zipIdx.map (·.1)).filterMap f := by
    rw [List.zipIdx_map_fst]
  rw [hfst, placed, List.map_filterMap, List.filterMap_map]
  congr 1
  funext ⟨a, i⟩
  cases hf : f a <;> simp [hf]

/-- An element with its place is what `f` makes of the element that stands there. The place is the
one in the whole list, also if earlier elements were left out. -/
theorem mem_placed {f : α → Option β} {l : List α} {b : β} {i : Nat} :
    (b, i) ∈ placed f l ↔ ∃ a, l[i]? = some a ∧ f a = some b := by
  simp only [placed, List.mem_filterMap, Prod.exists, List.mem_zipIdx_iff_getElem?,
    Option.map_eq_some_iff, Prod.mk.injEq]
  constructor
  · rintro ⟨a, _, ha, _, hb, rfl, rfl⟩
    exact ⟨a, ha, hb⟩
  · rintro ⟨a, ha, hb⟩
    exact ⟨a, i, ha, b, hb, rfl, rfl⟩

/-- Places increase along a list. -/
theorem pairwise_zipIdx (l : List α) : l.zipIdx.Pairwise fun a b => a.2 < b.2 := by
  rw [← List.pairwise_map (f := Prod.snd), List.zipIdx_map_snd]
  exact List.pairwise_lt_range'

/-- Places still increase where some elements have been dropped. -/
theorem pairwise_placed (f : α → Option β) (l : List α) :
    (placed f l).Pairwise fun a b => a.2 < b.2 := by
  refine List.Pairwise.filterMap _ (fun a a' hlt b hb b' hb' => ?_) (pairwise_zipIdx l)
  obtain ⟨_, -, rfl⟩ := Option.map_eq_some_iff.1 hb
  obtain ⟨_, -, rfl⟩ := Option.map_eq_some_iff.1 hb'
  exact hlt

/-- Two functions that share out the elements of a list share out its places. It is used for the
proposals that are out on their own and the candidates. -/
theorem placed_perm_range {f : α → Option β} {g : α → Option γ} {l : List α}
    (h : ∀ a ∈ l, (f a).isSome = (g a).isNone) :
    ((placed f l).map (·.2) ++ (placed g l).map (·.2)).Perm (List.range l.length) := by
  -- The induction needs places that do not start at zero, so it is over any list with places.
  have hshare : ∀ z : List (α × Nat), (∀ a ∈ z, (f a.1).isSome = (g a.1).isNone) →
      (((z.filterMap fun (a, i) => (f a).map (·, i)).map (·.2)) ++
        (z.filterMap fun (a, i) => (g a).map (·, i)).map (·.2)).Perm (z.map (·.2)) := by
    intro z hz
    induction z with
    | nil => exact .nil
    | cons a z ih =>
        obtain ⟨ha, hz⟩ := List.forall_mem_cons.1 hz
        cases hf : f a.1 with
        | some b =>
            have hg : g a.1 = none := by simpa [hf] using ha
            simpa [hf, hg] using ih hz
        | none =>
            obtain ⟨c, hg⟩ : ∃ c, g a.1 = some c := by
              simpa [hf, ← Option.isSome_iff_exists] using ha
            simpa [hf, hg] using List.perm_middle.trans ((ih hz).cons a.2)
  have hplaces : l.zipIdx.map (·.2) = List.range l.length := by
    rw [List.zipIdx_map_snd, List.range_eq_range']
  rw [← hplaces]
  exact hshare l.zipIdx fun a ha => h a.1 (List.fst_mem_of_mem_zipIdx ha)

/-- A sort keeps equal elements in the order they were in. Whatever held of the elements in that
order holds of them in the sorted list too, as long as they count as equal. -/
theorem pairwise_mergeSort_stable {le : α → α → Bool} {R : α → α → Prop}
    (htrans : ∀ a b c : α, le a b = true → le b c = true → le a c = true)
    (htotal : ∀ a b : α, (le a b || le b a) = true) {l : List α} (h : l.Pairwise R) :
    (l.mergeSort le).Pairwise fun a b => le a b = true ∧ (le b a = true → R a b) := by
  refine List.pairwise_iff_forall_sublist.2 fun {a b} hab => ?_
  have hle : le a b = true :=
    List.pairwise_iff_forall_sublist.1 (List.pairwise_mergeSort htrans htotal l) hab
  refine ⟨hle, fun hge => ?_⟩
  have hrefl : le a a = true := by simpa using htotal a a
  -- Among the elements that count as much as `a`, sorting changes nothing.
  have hequal : (l.mergeSort le).filter (fun x => le a x && le x a) =
      l.filter fun x => le a x && le x a := by
    rw [filter_mergeSort htrans htotal]
    refine List.mergeSort_of_pairwise (List.pairwise_iff_forall_sublist.2 fun {x y} hxy => ?_)
    have hx := (List.mem_filter.1 (hxy.subset (by simp : x ∈ [x, y]))).2
    have hy := (List.mem_filter.1 (hxy.subset (by simp : y ∈ [x, y]))).2
    rw [Bool.and_eq_true] at hx hy
    exact htrans _ _ _ hx.2 hy.1
  have hpair := hab.filter fun x => le a x && le x a
  rw [hequal] at hpair
  have hboth : [a, b].filter (fun x => le a x && le x a) = [a, b] := by simp [hrefl, hle, hge]
  rw [hboth] at hpair
  exact List.pairwise_iff_forall_sublist.1 h (hpair.trans List.filter_sublist)

end Places

/-! ### The order of consideration -/

namespace Proposal

/-- With their places in the input: `a` is considered before `b`. Higher priorities come first, then
what starts further left, then what belongs to an earlier diagnostic, then what was proposed
earlier. -/
def Earlier (a b : Proposal × Nat) : Prop :=
  b.1.priority < a.1.priority ∨ a.1.priority = b.1.priority ∧
    (a.1.start < b.1.start ∨ a.1.start = b.1.start ∧
      (a.1.diagnostic < b.1.diagnostic ∨ a.1.diagnostic = b.1.diagnostic ∧ a.2 < b.2))

/-- `p` is `q`, up to the order of its edits. -/
def Reordered (p q : Proposal) : Prop :=
  p = { q with edits := p.edits } ∧ p.edits.Perm q.edits

end Proposal

namespace Resolver

open Proposal (Earlier Reordered)

/-- The order of consideration, as far as the proposals themselves decide it: higher priorities
first, then what starts further left, then earlier diagnostics. -/
theorem precedes_iff {p q : Proposal} :
    precedes p q = true ↔ q.priority < p.priority ∨ p.priority = q.priority ∧
      (p.start < q.start ∨ p.start = q.start ∧ p.diagnostic ≤ q.diagnostic) := by
  simp [precedes]

/-- The order of consideration is transitive. -/
theorem precedes_trans (p q s : Proposal) (hpq : precedes p q = true)
    (hqs : precedes q s = true) : precedes p s = true := by
  rw [precedes_iff] at *
  omega

/-- Any two proposals can be put in order, in both ways if nothing tells them apart. -/
theorem precedes_total (p q : Proposal) : (precedes p q || precedes q p) = true := by
  rw [Bool.or_eq_true, precedes_iff, precedes_iff]
  omega

/-- With places to break the ties, one of two proposals is earlier. -/
theorem earlier_of_precedes {a b : Proposal × Nat} (hle : precedes a.1 b.1 = true)
    (htie : precedes b.1 a.1 = true → a.2 < b.2) : Earlier a b := by
  rw [precedes_iff] at hle htie
  rw [Earlier]
  omega

/-- What is considered earlier precedes. The place is not asked for then. -/
theorem precedes_of_earlier {a b : Proposal × Nat} (h : Earlier a b) :
    precedes a.1 b.1 = true := by
  rw [Earlier] at h
  rw [precedes_iff]
  omega

end Resolver

/-! ### The run over the candidates -/

/-- A resolution with the places of its proposals in the input. -/
structure Tally where
  accepted : List (Proposal × Nat) := []
  rejected : List (RejectedFix × Nat) := []

namespace Tally

open Proposal (Earlier)

/-- The resolution without places. -/
def resolution (t : Tally) : Resolution := ⟨t.accepted.map (·.1), t.rejected.map (·.1)⟩

/-- Accepts a proposal, unless it conflicts with an accepted one. -/
def accept (t : Tally) (candidate : Proposal × Nat) : Tally :=
  match t.accepted.find? (·.1.conflictsWith candidate.1) with
  | some winner =>
    { t with rejected := t.rejected ++ [(⟨candidate.1, .conflict winner.1.label⟩, candidate.2)] }
  | none => { t with accepted := t.accepted ++ [candidate] }

/-- A step with places is a step without them. The first accepted proposal that conflicts is the
same one. -/
theorem resolution_accept (t : Tally) (candidate : Proposal × Nat) :
    (t.accept candidate).resolution = t.resolution.accept candidate.1 := by
  have hfind : t.resolution.accepted.find? (·.conflictsWith candidate.1) =
      (t.accepted.find? (·.1.conflictsWith candidate.1)).map (·.1) := List.find?_map ..
  rw [accept, Resolution.accept, hfind]
  cases t.accepted.find? (·.1.conflictsWith candidate.1) <;> simp [resolution]

/-- A run with places is a run without them. -/
theorem resolution_foldl_accept (t : Tally) (candidates : List (Proposal × Nat)) :
    (candidates.foldl accept t).resolution =
      (candidates.map (·.1)).foldl Resolution.accept t.resolution := by
  induction candidates generalizing t with
  | nil => rfl
  | cons candidate candidates ih =>
      rw [List.foldl_cons, ih, resolution_accept, List.map_cons, List.foldl_cons]

/-- A proposal, with its place, is rejected for the first accepted one that it conflicts with, which
was considered before it. -/
def LostTo (accepted : List (Proposal × Nat)) (lost : RejectedFix × Nat) : Prop :=
  ∃ winner, accepted.find? (·.1.conflictsWith lost.1.proposal) = some winner ∧
    lost.1.reason = .conflict winner.1.label ∧ Earlier winner (lost.1.proposal, lost.2)

/-- Where the run stands after these candidates, if the proposals in `out` were rejected before
it. -/
structure Settled (out : List (RejectedFix × Nat)) (candidates : List (Proposal × Nat))
    (t : Tally) (lost : List (RejectedFix × Nat)) : Prop where
  rejected : t.rejected = out ++ lost
  /-- Candidates are accepted in the order in which they are considered. -/
  accepted : t.accepted.Sublist candidates
  /-- Each candidate is accepted or lost, and only one of the two. -/
  places : (t.accepted.map (·.2) ++ lost.map (·.2)).Perm (candidates.map (·.2))
  free : t.accepted.Pairwise fun p q => p.1.conflictsWith q.1 = false
  lost : ∀ f ∈ lost, (f.1.proposal, f.2) ∈ candidates ∧ LostTo t.accepted f

/-- One candidate more, which comes behind all others. Either it conflicts with an accepted one and
is lost to the first of these, or it is accepted; what was lost before stays lost to the same
winner. -/
theorem Settled.accept {out lost : List (RejectedFix × Nat)} {candidates : List (Proposal × Nat)}
    {t : Tally} (h : Settled out candidates t lost) (candidate : Proposal × Nat)
    (hlast : ∀ c ∈ candidates, Earlier c candidate) :
    ∃ lost, Settled out (candidates ++ [candidate]) (t.accept candidate) lost := by
  rw [Tally.accept]
  split
  · rename_i winner hwinner
    refine ⟨lost ++ [(⟨candidate.1, .conflict winner.1.label⟩, candidate.2)], ?_, ?_, ?_, h.free,
      ?_⟩
    · rw [h.rejected, List.append_assoc]
    · exact h.accepted.trans (List.sublist_append_left _ _)
    · simpa [← List.append_assoc] using h.places.append_right [candidate.2]
    · rw [List.forall_mem_append, List.forall_mem_singleton]
      refine ⟨fun f hf => ⟨?_, (h.lost f hf).2⟩, by simp, winner, hwinner, rfl, ?_⟩
      · exact List.mem_append_left _ (h.lost f hf).1
      · exact hlast winner (h.accepted.subset (List.mem_of_find?_eq_some hwinner))
  · rename_i hnone
    refine ⟨lost, h.rejected, h.accepted.append_right _, ?_, ?_, fun f hf => ?_⟩
    · have hmoved : (t.accepted.map (·.2) ++ [candidate.2] ++ lost.map (·.2)).Perm
          (t.accepted.map (·.2) ++ lost.map (·.2) ++ [candidate.2]) := by
        rw [List.append_assoc, List.append_assoc]
        exact List.perm_append_comm.append_left _
      simpa using hmoved.trans (h.places.append_right [candidate.2])
    · refine List.pairwise_append.2 ⟨h.free, List.pairwise_singleton _ _, fun p hp q hq => ?_⟩
      rw [List.mem_singleton.1 hq]
      simpa using List.find?_eq_none.1 hnone p hp
    · -- The winner was found among those accepted before, and is still the first.
      obtain ⟨hmem, winner, hwinner, hreason, hearlier⟩ := h.lost f hf
      refine ⟨List.mem_append_left _ hmem, winner, ?_, hreason, hearlier⟩
      rw [List.find?_append, hwinner, Option.some_or]

/-- The whole run over candidates in the order of consideration. The induction takes the last
candidate away, since each candidate has to come behind those before it. -/
theorem settled_foldl_accept (out : List (RejectedFix × Nat)) {candidates : List (Proposal × Nat)}
    (hsorted : candidates.Pairwise Earlier) :
    ∃ lost, Settled out candidates (candidates.foldl accept { rejected := out }) lost := by
  induction candidates using List.reverseRecOn with
  | nil => exact ⟨[], by simp, .slnil, .nil, .nil, by simp⟩
  | append_singleton candidates candidate ih =>
      obtain ⟨hbefore, -, hlast⟩ := List.pairwise_append.1 hsorted
      obtain ⟨lost, hlost⟩ := ih hbefore
      rw [List.foldl_append]
      exact hlost.accept candidate fun c hc => hlast c hc candidate (by simp)

end Tally

/-! ### Judging -/

namespace Resolver

open Proposal (Earlier Reordered)

variable {r : Resolver} {diagnostics : List Diagnostic} {source : String} {p : Proposal}

/-- The proposal may change behaviour, and such proposals were not asked for. -/
def Forbids (r : Resolver) (p : Proposal) : Prop := p.safety = .risky ∧ r.allowRisky = false

/-- A proposal for a diagnostic that is not in the report is out, whatever else is the matter with
it. -/
theorem judge_of_unknown (h : diagnostics[p.diagnostic]? = none) :
    r.judge diagnostics source p = (p, some (.invalid (.unknownDiagnostic p.diagnostic))) := by
  rw [judge, h]

/-- A risky proposal is out if nobody asked for such ones. It is not checked then. -/
theorem judge_of_forbids {d : Diagnostic} (hd : diagnostics[p.diagnostic]? = some d)
    (h : r.Forbids p) : r.judge diagnostics source p = (p, some .risky) := by
  simp [judge, hd, h.1, h.2]

/-- Any other proposal is out exactly if its check finds a fault, and the check may reorder its
edits. -/
theorem judge_of_allowed {d : Diagnostic} (hd : diagnostics[p.diagnostic]? = some d)
    (h : ¬ r.Forbids p) : r.judge diagnostics source p =
      ((p.validate r.slack d.range source).1,
        (p.validate r.slack d.range source).2.map .invalid) := by
  rw [Forbids] at h
  simp only [judge, hd]
  rw [if_neg (by simpa using h)]

/-- Checking a proposal leaves it as it is, up to the order of its edits. Only a proposal whose
edits are all right by themselves gets sorted. -/
theorem reordered_validate (p : Proposal) (slack : Nat) (range : TextRange) (source : String) :
    (p.validate slack range source).1.Reordered p := by
  rcases p.validate_cases slack range source with ⟨-, heq⟩ | ⟨_, -, _, -, heq⟩ | ⟨-, -, heq⟩
  · rw [heq]
    exact ⟨rfl, .refl _⟩
  · rw [heq]
    exact ⟨rfl, .refl _⟩
  · rw [heq]
    exact ⟨rfl, Edit.sort_perm p.edits⟩

/-- Judging a proposal leaves it as it is, up to the order of its edits. It is checked only if its
diagnostic is known and it is not forbidden. -/
theorem reordered_judge (r : Resolver) (diagnostics : List Diagnostic) (source : String)
    (p : Proposal) : (r.judge diagnostics source p).1.Reordered p := by
  cases hd : diagnostics[p.diagnostic]? with
  | none =>
      rw [judge_of_unknown hd]
      exact ⟨rfl, .refl _⟩
  | some d =>
      by_cases hforbids : r.Forbids p
      · rw [judge_of_forbids hd hforbids]
        exact ⟨rfl, .refl _⟩
      · rw [judge_of_allowed hd hforbids]
        exact reordered_validate p r.slack d.range source

/-- An edit, or a pair of them, is at fault for what is wrong with a proposal, never its diagnostic.
So the two kinds of invalid proposals cannot be mistaken for each other. -/
theorem validate_ne_unknownDiagnostic (p : Proposal) (slack : Nat) (range : TextRange)
    (source : String) (position : Nat) :
    (p.validate slack range source).2 ≠ some (.unknownDiagnostic position) := by
  intro hunknown
  rcases p.validate_cases slack range source with
    ⟨-, heq⟩ | ⟨edit, -, fault, hfault, heq⟩ | ⟨-, -, heq⟩
  · simp [heq] at hunknown
  · rw [heq] at hunknown
    rcases Proposal.fault_of_editFault (hfault.trans hunknown) with h | h | h <;> cases h
  · rw [heq] at hunknown
    obtain ⟨first, second, hoverlap⟩ := Proposal.fault_of_neighbourFault hunknown
    cases hoverlap

/-! ### The tally of a resolution -/

/-- The proposal as a candidate, if it is not out on its own. -/
def candidate? (r : Resolver) (diagnostics : List Diagnostic) (source : String) (p : Proposal) :
    Option Proposal :=
  let (checked, out) := r.judge diagnostics source p
  if out.isNone then some checked else none

/-- The proposal as one that is out on its own. -/
def dismissed? (r : Resolver) (diagnostics : List Diagnostic) (source : String) (p : Proposal) :
    Option RejectedFix :=
  let (checked, out) := r.judge diagnostics source p
  out.map fun reason => ⟨checked, reason⟩

/-- The candidates with their places, in the order of consideration. -/
def considered (r : Resolver) (proposals : List Proposal) (diagnostics : List Diagnostic)
    (source : String) : List (Proposal × Nat) :=
  (placed (r.candidate? diagnostics source) proposals).mergeSort fun a b => precedes a.1 b.1

/-- The resolution of a list of proposals, with places. -/
def tally (r : Resolver) (proposals : List Proposal) (diagnostics : List Diagnostic)
    (source : String) : Tally :=
  (r.considered proposals diagnostics source).foldl Tally.accept
    { rejected := placed (r.dismissed? diagnostics source) proposals }

/-- Without places, the tally is what the resolver computes. Sorting with places and without them
comes to the same, because the comparison does not look at places. -/
theorem resolution_tally (r : Resolver) (proposals : List Proposal)
    (diagnostics : List Diagnostic) (source : String) :
    (r.tally proposals diagnostics source).resolution =
      r.resolve proposals diagnostics source := by
  have hsort : (r.considered proposals diagnostics source).map (·.1) =
      (proposals.filterMap (r.candidate? diagnostics source)).mergeSort precedes := by
    rw [considered, List.map_mergeSort (s := precedes) fun _ _ _ _ => rfl, map_fst_placed]
  rw [tally, Tally.resolution_foldl_accept, hsort, resolve]
  simp only [Tally.resolution, map_fst_placed, List.filterMap_map]
  rfl

/-- What the resolver is to do with a list of proposals, by their places in the list. -/
structure Selects (r : Resolver) (proposals : List Proposal) (diagnostics : List Diagnostic)
    (source : String) (accepted : List (Proposal × Nat)) (rejected : List (RejectedFix × Nat)) :
    Prop where
  /-- Each place is accepted once or rejected once. -/
  places : (accepted.map (·.2) ++ rejected.map (·.2)).Perm (List.range proposals.length)
  acceptedFrom : ∀ a ∈ accepted, ∃ p, proposals[a.2]? = some p ∧ a.1.Reordered p
  rejectedFrom : ∀ f ∈ rejected, ∃ p, proposals[f.2]? = some p ∧ f.1.proposal.Reordered p
  sorted : accepted.Pairwise Earlier
  free : accepted.Pairwise fun a b => a.1.conflictsWith b.1 = false
  unknown : ∀ i p, proposals[i]? = some p →
    ((∃ f, (f, i) ∈ rejected ∧ f.reason = .invalid (.unknownDiagnostic p.diagnostic)) ↔
      diagnostics.length ≤ p.diagnostic)
  risky : ∀ i p d, proposals[i]? = some p → diagnostics[p.diagnostic]? = some d →
    ((∃ f, (f, i) ∈ rejected ∧ f.reason = .risky) ↔
      p.safety = .risky ∧ r.allowRisky = false)
  invalid : ∀ i p d, proposals[i]? = some p → diagnostics[p.diagnostic]? = some d →
    ¬ (p.safety = .risky ∧ r.allowRisky = false) → ∀ error,
    ((∃ f, (f, i) ∈ rejected ∧ f.reason = .invalid error) ↔
      (p.validate r.slack d.range source).2 = some error)
  /-- What is not out on its own is accepted, or loses to the first accepted proposal that it
  conflicts with. -/
  greedy : ∀ i p d, proposals[i]? = some p → diagnostics[p.diagnostic]? = some d →
    ¬ (p.safety = .risky ∧ r.allowRisky = false) →
    (p.validate r.slack d.range source).2 = none →
    (∃ q, (q, i) ∈ accepted) ∨
      ∃ f winner, (f, i) ∈ rejected ∧
        accepted.find? (·.1.conflictsWith f.proposal) = some winner ∧
        f.reason = .conflict winner.1.label ∧ Earlier winner (f.proposal, i)

variable {proposals : List Proposal}

/-- The candidates are what judging lets through, each with the place of its proposal. -/
theorem mem_considered {q : Proposal} {i : Nat} :
    (q, i) ∈ r.considered proposals diagnostics source ↔
      ∃ p, proposals[i]? = some p ∧ r.judge diagnostics source p = (q, none) := by
  simp only [considered, List.mem_mergeSort, mem_placed, candidate?, Option.isNone_iff_eq_none,
    Option.ite_none_right_eq_some, Option.some.injEq, Prod.ext_iff, and_comm]

/-- Out on their own are the proposals that judging has a reason against. Each keeps its place among
the proposals. -/
theorem mem_dismissed {f : RejectedFix} {i : Nat} :
    (f, i) ∈ placed (r.dismissed? diagnostics source) proposals ↔
      ∃ p, proposals[i]? = some p ∧
        r.judge diagnostics source p = (f.proposal, some f.reason) := by
  rw [mem_placed]
  refine exists_congr fun p => and_congr_right fun _ => ?_
  rw [dismissed?, Option.map_eq_some_iff, Prod.ext_iff]
  constructor
  · rintro ⟨reason, hreason, rfl⟩
    exact ⟨rfl, hreason⟩
  · rintro ⟨hproposal, hreason⟩
    exact ⟨f.reason, hreason, by rw [hproposal]⟩

/-- A proposal is a candidate or out, and never both. -/
theorem isSome_candidate? (p : Proposal) : (r.candidate? diagnostics source p).isSome =
    (r.dismissed? diagnostics source p).isNone := by
  simp only [candidate?, dismissed?]
  cases (r.judge diagnostics source p).2 <;> rfl

/-- The candidates are considered in the order `Earlier`. Places increase before the sort, which is
stable, so ties go to the earlier place. -/
theorem considered_pairwise_earlier (r : Resolver) (proposals : List Proposal)
    (diagnostics : List Diagnostic) (source : String) :
    (r.considered proposals diagnostics source).Pairwise Earlier :=
  (pairwise_mergeSort_stable (fun a b c => precedes_trans a.1 b.1 c.1)
    (fun a b => precedes_total a.1 b.1) (pairwise_placed _ _)).imp
    fun h => earlier_of_precedes h.1 h.2

/-- Conflicts apart, a proposal is rejected for the reason that judging it gives. What loses in the
run is rejected for a conflict and nothing else. -/
theorem exists_rejected_iff {candidates : List (Proposal × Nat)} {t : Tally}
    {lost : List (RejectedFix × Nat)}
    (h : t.Settled (placed (r.dismissed? diagnostics source) proposals) candidates lost)
    {i : Nat} (hp : proposals[i]? = some p) {reason : Rejection}
    (hreason : ∀ label, reason ≠ .conflict label) :
    (∃ f, (f, i) ∈ t.rejected ∧ f.reason = reason) ↔
      (r.judge diagnostics source p).2 = some reason := by
  rw [h.rejected]
  constructor
  · rintro ⟨f, hf, rfl⟩
    -- The rejected ones are those out on their own and those that lost in the run.
    rcases List.mem_append.1 hf with hout | hlost
    · obtain ⟨q, hq, hjudge⟩ := mem_dismissed.1 hout
      rw [hp, Option.some.injEq] at hq
      rw [hq, hjudge]
    · obtain ⟨-, winner, -, hconflict, -⟩ := h.lost _ hlost
      exact absurd hconflict (hreason _)
  · intro hjudge
    refine ⟨⟨(r.judge diagnostics source p).1, reason⟩, List.mem_append_left _ ?_, rfl⟩
    exact mem_dismissed.2 ⟨p, hp, by rw [← hjudge]⟩

/-- Each candidate is a proposal of the list, up to the order of its edits. -/
theorem reordered_of_mem_considered {q : Proposal} {i : Nat}
    (h : (q, i) ∈ r.considered proposals diagnostics source) :
    ∃ p, proposals[i]? = some p ∧ q.Reordered p := by
  obtain ⟨p, hp, hjudge⟩ := mem_considered.1 h
  exact ⟨p, hp, by simpa [hjudge] using r.reordered_judge diagnostics source p⟩

/-- A candidate is accepted or loses. The places of the accepted ones and of the losers together are
those of the candidates. -/
theorem accepted_or_lost {t : Tally} {out lost : List (RejectedFix × Nat)}
    (h : t.Settled out (r.considered proposals diagnostics source) lost) {q : Proposal} {i : Nat}
    (hq : (q, i) ∈ r.considered proposals diagnostics source) :
    (∃ q, (q, i) ∈ t.accepted) ∨ ∃ f, (f, i) ∈ lost := by
  have hplace : i ∈ (r.considered proposals diagnostics source).map (·.2) :=
    List.mem_map.2 ⟨(q, i), hq, rfl⟩
  rcases List.mem_append.1 (h.places.mem_iff.2 hplace) with haccepted | hlost
  · obtain ⟨⟨a, _⟩, ha, rfl⟩ := List.mem_map.1 haccepted
    exact .inl ⟨a, ha⟩
  · obtain ⟨⟨f, _⟩, hf, rfl⟩ := List.mem_map.1 hlost
    exact .inr ⟨f, hf⟩

/-- The resolver selects greedily and accounts for every proposal. Whatever the proposals are, each
place of the list is accepted or rejected, and not both, with the proposal that stands there up to
the order of its edits. Accepted proposals come in the order of consideration and do not conflict. A
proposal for no diagnostic of the report is rejected as such; one of the others is rejected as risky
if it is and nobody asked for such fixes; and one of the rest if its check fails, for the reason the
check gives. Everything else is accepted, or rejected for the first accepted proposal that it
conflicts with, which comes before it in the order. -/
theorem resolve_selects (r : Resolver) (proposals : List Proposal) (diagnostics : List Diagnostic)
    (source : String) :
    ∃ (accepted : List (Proposal × Nat)) (rejected : List (RejectedFix × Nat)),
      (r.resolve proposals diagnostics source).accepted = accepted.map (·.1) ∧
      (r.resolve proposals diagnostics source).rejected = rejected.map (·.1) ∧
      r.Selects proposals diagnostics source accepted rejected := by
  obtain ⟨lost, h⟩ := Tally.settled_foldl_accept
    (placed (r.dismissed? diagnostics source) proposals)
    (r.considered_pairwise_earlier proposals diagnostics source)
  rw [← resolution_tally]
  refine ⟨_, _, rfl, rfl, ?_⟩
  change (r.tally proposals diagnostics source).Settled _ _ _ at h
  -- What follows uses the tally only through what is settled of it.
  generalize r.tally proposals diagnostics source = t at h ⊢
  constructor
  case places =>
    have hshared := placed_perm_range (f := r.candidate? diagnostics source)
      (g := r.dismissed? diagnostics source) (l := proposals) fun p _ => isSome_candidate? p
    have hcandidates := h.places.trans ((List.mergeSort_perm _ _).map _)
    rw [h.rejected, List.map_append]
    refine (List.perm_append_comm.append_left _).trans ?_
    rw [← List.append_assoc]
    exact (hcandidates.append_right _).trans hshared
  case acceptedFrom => exact fun a ha => reordered_of_mem_considered (h.accepted.subset ha)
  case rejectedFrom =>
    intro f hf
    rw [h.rejected] at hf
    rcases List.mem_append.1 hf with hout | hlost
    · obtain ⟨p, hp, hjudge⟩ := mem_dismissed.1 hout
      exact ⟨p, hp, by simpa [hjudge] using r.reordered_judge diagnostics source p⟩
    · exact reordered_of_mem_considered (h.lost f hlost).1
  case sorted =>
    exact (r.considered_pairwise_earlier proposals diagnostics source).sublist h.accepted
  case free => exact h.free
  case unknown =>
    intro i p hp
    rw [exists_rejected_iff h hp (by simp), ← List.getElem?_eq_none_iff]
    cases hd : diagnostics[p.diagnostic]? with
    | none => simp [judge_of_unknown hd]
    | some d =>
        by_cases hforbids : r.Forbids p
        · simp [judge_of_forbids hd hforbids]
        · simp [judge_of_allowed hd hforbids, validate_ne_unknownDiagnostic]
  case risky =>
    intro i p d hp hd
    rw [exists_rejected_iff h hp (by simp)]
    by_cases hforbids : r.Forbids p
    · simp [judge_of_forbids hd hforbids, hforbids.1, hforbids.2]
    · rw [judge_of_allowed hd hforbids]
      simpa [Forbids] using hforbids
  case invalid =>
    intro i p d hp hd hallowed error
    rw [exists_rejected_iff h hp (by simp), judge_of_allowed hd hallowed]
    simp
  case greedy =>
    intro i p d hp hd hallowed hvalid
    have hq : ((p.validate r.slack d.range source).1, i) ∈
        r.considered proposals diagnostics source := by
      refine mem_considered.2 ⟨p, hp, ?_⟩
      rw [judge_of_allowed hd hallowed, hvalid]
      rfl
    rcases accepted_or_lost h hq with haccepted | ⟨f, hf⟩
    · exact .inl haccepted
    · obtain ⟨-, winner, hwinner, hreason, hearlier⟩ := h.lost _ hf
      refine .inr ⟨f, winner, ?_, hwinner, hreason, hearlier⟩
      rw [h.rejected]
      exact List.mem_append_right _ hf

end Resolver

end Arborist
