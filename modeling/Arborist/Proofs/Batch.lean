import Arborist.Batch
import Arborist.Proofs.Path
import Mathlib.Data.List.Pairwise
import Mathlib.Logic.Relation

/-!
# `Arborist.Proofs.Batch`: a batch under any schedule

Workers take the files of a batch in any order and several at a time, and a request to cancel may
come at any moment. A worker looks for the request before it begins with a file and again when it is
done. `BatchStep` is one step of this: the request, or one file that goes on. `BatchState.result`
puts the outcomes together once every file has finished.

All that the schedule decides is which files are dropped. `Sound` is the invariant: a file that has
finished holds the whole outcome for its path, or was dropped after the request. So the result of a
run is that of `Engine.analyzeBatch` with the files that finished (`Sound.result_eq`), and
`batch_run_gathers` says what it holds. Without dropped files nothing of the schedule is left, and
the order of the paths is lost in sorting.
-/

set_option autoImplicit false

namespace Arborist

/-! ### Runs -/

/-- How far the work on one file of a batch has come. -/
inductive FileProgress where
  | waiting
  | running
  /-- The outcome; none if the file was dropped. -/
  | finished (outcome : Option (Except AnalyzeError FileReport))

/-- The outcome of the work on a file so far. -/
def FileProgress.outcome? : FileProgress → Option (Except AnalyzeError FileReport)
  | .finished outcome => outcome
  | _ => none

/-- A batch under way. -/
structure BatchState where
  /-- It was asked to cancel the batch. -/
  cancelled : Bool := false
  /-- The files, by their position in the list of paths. -/
  progress : List FileProgress

namespace BatchState

/-- No file is begun. -/
def start (paths : List String) : BatchState := { progress := paths.map fun _ => .waiting }

/-- With the file at a position having come as far as this. -/
def advance (s : BatchState) (position : Nat) (p : FileProgress) : BatchState :=
  { s with progress := s.progress.set position p }

/-- Every file has finished. -/
def Complete (s : BatchState) : Prop := ∀ p ∈ s.progress, ∃ outcome, p = .finished outcome

/-- The outcomes by position. -/
def outcomes (s : BatchState) : List (Option (Except AnalyzeError FileReport)) :=
  s.progress.map FileProgress.outcome?

/-- The outcomes put together. -/
def result (root : String) (s : BatchState) : BatchResult :=
  (s.outcomes.foldl (BatchResult.add root) {}).sort

/-- The file at a position has finished and was not dropped. -/
def finishes (s : BatchState) (position : Nat) : Bool :=
  (s.progress[position]?.bind FileProgress.outcome?).isSome

/-- The paths of the files that were not dropped. -/
def kept (s : BatchState) (paths : List String) : List String :=
  (paths.zipIdx.filter fun entry => s.finishes entry.2).map Prod.fst

/-- Number of files that were dropped. -/
def dropped (s : BatchState) : Nat := s.outcomes.countP Option.isNone

end BatchState

/-- One step of a batch. Nothing takes a request to cancel back, and nothing says in which order the
files go on. -/
inductive BatchStep (process : String → Except AnalyzeError FileReport) (paths : List String) :
    BatchState → BatchState → Prop
  | cancel (s : BatchState) : BatchStep process paths s { s with cancelled := true }
  /-- A worker turns to a file after the request. -/
  | refuse {s : BatchState} {position : Nat} (hwaiting : s.progress[position]? = some .waiting)
      (hcancelled : s.cancelled = true) :
      BatchStep process paths s (s.advance position (.finished none))
  /-- A worker turns to a file and begins. -/
  | begin {s : BatchState} {position : Nat} (hwaiting : s.progress[position]? = some .waiting)
      (hcancelled : s.cancelled = false) : BatchStep process paths s (s.advance position .running)
  /-- A worker is done with a file; the outcome counts if there was no request until now. -/
  | finish {s : BatchState} {position : Nat} {path : String}
      (hrunning : s.progress[position]? = some .running) (hpath : paths[position]? = some path) :
      BatchStep process paths s
        (s.advance position (.finished (if s.cancelled then none else some (process path))))

/-- The batch can come to this state. -/
def BatchState.Reached (process : String → Except AnalyzeError FileReport) (paths : List String)
    (s : BatchState) : Prop :=
  Relation.ReflTransGen (BatchStep process paths) (.start paths) s

namespace BatchState

variable {process : String → Except AnalyzeError FileReport} {paths : List String} {s : BatchState}

/-- A file that has finished holds the outcome for its path, or it was dropped after a request. -/
structure Sound (process : String → Except AnalyzeError FileReport) (paths : List String)
    (s : BatchState) : Prop where
  length : s.progress.length = paths.length
  whole : ∀ (position : Nat) (outcome : Except AnalyzeError FileReport),
    s.progress[position]? = some (.finished (some outcome)) →
      ∃ path, paths[position]? = some path ∧ outcome = process path
  asked : ∀ position : Nat, s.progress[position]? = some (.finished none) → s.cancelled = true

/-- What stands at a position after one file went on: the new progress if it is the position of that
file, and otherwise what stood there before. -/
theorem getElem?_advance {position q : Nat} {p p' : FileProgress}
    (h : (s.advance position p).progress[q]? = some p') :
    (q = position ∧ p' = p) ∨ s.progress[q]? = some p' := by
  rw [advance, List.getElem?_set] at h
  split at h
  · split at h
    · rename_i heq _
      exact .inl ⟨heq.symm, (Option.some.inj h).symm⟩
    · cases h
  · exact .inr h

/-- A file may go on to any progress that is true of it: a whole outcome has to be the one for the
path, and a file may be dropped only after the request. The other files stay as they are. -/
theorem Sound.advance (h : s.Sound process paths) {position : Nat} {p : FileProgress}
    (hwhole : ∀ outcome, p = .finished (some outcome) →
      ∃ path, paths[position]? = some path ∧ outcome = process path)
    (hasked : p = .finished none → s.cancelled = true) :
    (s.advance position p).Sound process paths where
  length := by
    rw [BatchState.advance, List.length_set]
    exact h.length
  whole := by
    intro q outcome hq
    rcases getElem?_advance hq with ⟨rfl, hp⟩ | hold
    · exact hwhole outcome hp.symm
    · exact h.whole q outcome hold
  asked := by
    intro q hq
    rcases getElem?_advance hq with ⟨-, hp⟩ | hold
    · exact hasked hp.symm
    · exact h.asked q hold

/-- One step keeps the invariant. The request makes `asked` true at once; the other steps move one
file, and their guards are what `Sound.advance` asks for. -/
theorem Sound.step {s' : BatchState} (h : s.Sound process paths)
    (hstep : BatchStep process paths s s') : s'.Sound process paths := by
  cases hstep with
  | cancel => exact ⟨h.length, h.whole, fun _ _ => rfl⟩
  | refuse _ hcancelled => exact h.advance (fun _ hp => by cases hp) fun _ => hcancelled
  | begin => exact h.advance (fun _ hp => by cases hp) fun hp => by cases hp
  | @finish position path _ hpath =>
      -- Whether the outcome counts is decided by the request alone, so both goals split on it.
      refine h.advance (fun outcome hp => ?_) fun hp => ?_
      · cases hcancelled : s.cancelled with
        | true => simp [hcancelled] at hp
        | false =>
            simp only [hcancelled, Bool.false_eq_true, if_false, FileProgress.finished.injEq,
              Option.some.injEq] at hp
            exact ⟨path, hpath, hp.symm⟩
      · cases hcancelled : s.cancelled with
        | true => rfl
        | false => simp [hcancelled] at hp

/-- Every run keeps the invariant, by induction on its steps. At the start no file has finished, so
nothing is claimed of any of them. -/
theorem Reached.sound (h : s.Reached process paths) : s.Sound process paths := by
  induction h with
  | refl =>
      have hwaiting : ∀ (position : Nat) (outcome : Option (Except AnalyzeError FileReport)),
          (start paths).progress[position]? ≠ some (.finished outcome) := by
        intro position outcome hprogress
        rw [start, List.getElem?_map] at hprogress
        cases hpath : paths[position]? <;> simp [hpath] at hprogress
      exact ⟨by simp [start], fun position outcome h => absurd h (hwaiting _ _),
        fun position h => absurd h (hwaiting _ _)⟩
  | tail _ hstep ih => exact ih.step hstep

/-- The outcomes by position: those of the paths, without the ones that were dropped. A file that
has not finished counts as dropped here, which does no harm, because results are formed of complete
runs only. -/
theorem Sound.outcomes_eq (h : s.Sound process paths) :
    s.outcomes = paths.zipIdx.map fun entry =>
      if s.finishes entry.2 then some (process entry.1) else none := by
  refine List.ext_getElem (by simp [outcomes, h.length]) fun position hs hp => ?_
  have hlt : position < s.progress.length := by simpa [outcomes] using hs
  have hpath : position < paths.length := by rwa [h.length] at hlt
  have hget : s.progress[position]? = some s.progress[position] := List.getElem?_eq_getElem hlt
  simp only [outcomes, List.getElem_map, List.getElem_zipIdx, Nat.zero_add, finishes, hget,
    Option.bind_some]
  cases hprogress : s.progress[position] with
  -- Neither of them has an outcome, and the right side has none for them either.
  | waiting | running => rfl
  | finished outcome =>
      cases outcome with
      | none => rfl
      | some outcome =>
          obtain ⟨path, hmem, houtcome⟩ := h.whole position outcome (by rw [hget, hprogress])
          rw [List.getElem?_eq_getElem hpath, Option.some.injEq] at hmem
          simp [FileProgress.outcome?, houtcome, hmem]

/-- The outcomes that are there are those for the paths that were kept, in their order. -/
theorem Sound.filterMap_outcomes (h : s.Sound process paths) :
    s.outcomes.filterMap id = (s.kept paths).map process := by
  rw [h.outcomes_eq, kept, List.filterMap_map, List.map_map, ← List.filterMap_eq_map,
    List.filterMap_filter]
  rfl

/-- Files are kept or dropped, so their numbers add up to the number of paths. A file is dropped
exactly if it has no outcome. -/
theorem Sound.length_kept_add_dropped (h : s.Sound process paths) :
    (s.kept paths).length + s.dropped = paths.length := by
  have hkept : (s.kept paths).length = s.outcomes.countP Option.isSome := by
    rw [← List.length_map process, ← h.filterMap_outcomes, List.length_filterMap_eq_countP]
    rfl
  have hlength : s.outcomes.length = paths.length := by
    rw [outcomes, List.length_map]
    exact h.length
  have hsplit := @List.length_eq_countP_add_countP _ Option.isSome s.outcomes
  rw [hkept, dropped, ← hlength, hsplit]
  congr 2
  funext outcome
  cases outcome <;> rfl

/-- Without a request no file is dropped: a finished file without an outcome is one that
`Sound.asked` explains by the request. -/
theorem Sound.dropped_eq_zero (h : s.Sound process paths) (hcomplete : s.Complete)
    (hcancelled : s.cancelled = false) : s.dropped = 0 := by
  rw [dropped, outcomes, List.countP_map, List.countP_eq_zero]
  intro p hp hnone
  obtain ⟨outcome, rfl⟩ := hcomplete p hp
  obtain rfl : outcome = none := Option.isNone_iff_eq_none.1 hnone
  obtain ⟨position, hposition⟩ := List.mem_iff_getElem?.1 hp
  rw [h.asked position hposition] at hcancelled
  cases hcancelled

/-- The paths that were kept stand in the order of the batch. -/
theorem kept_sublist (s : BatchState) (paths : List String) : (s.kept paths).Sublist paths := by
  have hfilter := (List.filter_sublist (p := fun entry : String × Nat => s.finishes entry.2)
    (l := paths.zipIdx)).map Prod.fst
  rwa [List.zipIdx_map_fst] at hfilter

/-- If no file was dropped, then all are kept: a sublist of full length is the whole list. -/
theorem Sound.kept_eq (h : s.Sound process paths) (hdropped : s.dropped = 0) :
    s.kept paths = paths := by
  have hlength := h.length_kept_add_dropped
  rw [hdropped, Nat.add_zero] at hlength
  exact (s.kept_sublist paths).eq_of_length hlength

/-- The schedule decides which files are dropped and nothing else. Given that, the result is the one
of `Engine.analyzeBatch`, which goes through the paths in their order. -/
theorem Sound.result_eq {e : Engine} {root : String} {read : FileReader} {fix : Option Bool}
    (h : s.Sound (e.process root read fix) paths) :
    s.result root = e.analyzeBatch root read fix s.finishes paths := by
  rw [result, h.outcomes_eq, Engine.analyzeBatch]

end BatchState

/-! ### Putting outcomes together -/

/-- The record of a failure, if the outcome is one. -/
def FileFailure.ofOutcome? (root : String) : Except AnalyzeError FileReport → Option FileFailure
  | .ok _ => none
  | .error error => some (.ofError root error)

namespace BatchResult

/-- Adding outcomes one by one: reports, failures and dropped files go their own ways, and each
keeps the order in which it came. The induction is over the outcomes with any result to begin
with. -/
theorem foldl_add (root : String) (outcomes : List (Option (Except AnalyzeError FileReport)))
    (r : BatchResult) :
    outcomes.foldl (add root) r = {
      reports := r.reports ++ (outcomes.filterMap id).filterMap Except.toOption
      failures := r.failures ++ (outcomes.filterMap id).filterMap (FileFailure.ofOutcome? root)
      filesChecked := r.filesChecked + ((outcomes.filterMap id).filterMap Except.toOption).length
      cancelled := r.cancelled || outcomes.any Option.isNone } := by
  induction outcomes generalizing r with
  | nil => simp
  | cons outcome outcomes ih =>
      rw [List.foldl_cons, ih]
      -- A file that was dropped, one that failed, and one with a report.
      rcases outcome with _ | error | report
      · simp [add]
      · simp [add, List.filterMap_cons, Except.toOption, FileFailure.ofOutcome?]
      · simp [add, List.filterMap_cons, Except.toOption, FileFailure.ofOutcome?, Nat.add_assoc,
          Nat.add_comm]

/-- Each outcome is a report or a failure and never both, so the two lists together are as long as
the list of outcomes. -/
theorem length_filterMap_outcomes (root : String)
    (outcomes : List (Except AnalyzeError FileReport)) :
    (outcomes.filterMap Except.toOption).length +
      (outcomes.filterMap (FileFailure.ofOutcome? root)).length = outcomes.length := by
  induction outcomes with
  | nil => rfl
  | cons outcome outcomes ih =>
      cases outcome <;>
        simp only [List.filterMap_cons, Except.toOption, FileFailure.ofOutcome?,
          List.length_cons] <;> omega

/-- The result holds the outcomes for these paths, each once, and nothing else, in the order of the
paths recorded. -/
structure Gathers (process : String → Except AnalyzeError FileReport) (root : String)
    (kept : List String) (r : BatchResult) : Prop where
  reports : r.reports.Perm ((kept.map process).filterMap Except.toOption)
  failures : r.failures.Perm ((kept.map process).filterMap (FileFailure.ofOutcome? root))
  filesChecked : r.filesChecked = r.reports.length
  reportsSorted : r.reports.Pairwise fun a b => Path.le a.path b.path = true
  failuresSorted : r.failures.Pairwise fun a b => Path.le a.path b.path = true

/-- No two reports and no two failures stand under one path, however it is spelled. -/
structure DistinctPaths (r : BatchResult) : Prop where
  reports : r.reports.Pairwise fun a b => Path.compare a.path b.path ≠ .eq
  failures : r.failures.Pairwise fun a b => Path.compare a.path b.path ≠ .eq

/-- Entries sorted by their paths are in order. The order of paths is total and transitive, which is
all that the sort asks for. -/
theorem sorted_mergeSort {α : Type} (path : α → String) (xs : List α) :
    (xs.mergeSort fun a b => Path.le (path a) (path b)).Pairwise fun a b =>
      Path.le (path a) (path b) = true :=
  @List.pairwise_mergeSort α (fun a b => Path.le (path a) (path b)) (fun _ _ _ => Path.le_trans)
    (fun _ _ => Path.le_total _ _) xs

/-- Sorting by distinct paths forgets the order before: two sorted lists with the same entries are
equal if no two paths are the same, because then entries that are in order both ways are one
entry. -/
theorem eq_of_sorted {α : Type} {path : α → String} {xs ys : List α} (hperm : xs.Perm ys)
    (hxs : xs.Pairwise fun a b => Path.le (path a) (path b) = true)
    (hys : ys.Pairwise fun a b => Path.le (path a) (path b) = true)
    (hdistinct : xs.Pairwise fun a b => Path.compare (path a) (path b) ≠ .eq) : xs = ys := by
  refine hperm.eq_of_pairwise (fun a b ha hb hab hba => ?_) hxs hys
  have : Std.Symm fun x y : α => Path.compare (path x) (path y) ≠ .eq :=
    ⟨fun _ _ => Path.compare_ne_eq_symm⟩
  by_contra hne
  exact hdistinct.forall ha (hperm.mem_iff.2 hb) hne (Path.compare_eq_of_le hab hba)

/-- What is gathered from the same paths in another order is the same, if no two reports and no two
failures share a path. Only the mark that a file was dropped is not a matter of the paths. -/
theorem Gathers.ext {process : String → Except AnalyzeError FileReport} {root : String}
    {kept kept' : List String} {r r' : BatchResult} (h : r.Gathers process root kept)
    (h' : r'.Gathers process root kept') (hperm : kept'.Perm kept) (hdistinct : r.DistinctPaths)
    (hcancelled : r'.cancelled = r.cancelled) : r' = r := by
  -- Both are sorted and have the same elements, and no two of these are equal for the sort.
  have hreports : r.reports = r'.reports := by
    refine eq_of_sorted ?_ h.reportsSorted h'.reportsSorted hdistinct.reports
    exact h.reports.trans (((hperm.map process).filterMap _).symm.trans h'.reports.symm)
  have hfailures : r.failures = r'.failures := by
    refine eq_of_sorted ?_ h.failuresSorted h'.failuresSorted hdistinct.failures
    exact h.failures.trans (((hperm.map process).filterMap _).symm.trans h'.failures.symm)
  have hchecked : r.filesChecked = r'.filesChecked := by
    rw [h.filesChecked, h'.filesChecked, hreports]
  cases r
  cases r'
  simp only at hreports hfailures hchecked hcancelled
  subst hreports hfailures hchecked hcancelled
  rfl

end BatchResult

/-! ### The result of a run -/

namespace BatchState.Sound

variable {process : String → Except AnalyzeError FileReport} {paths : List String} {s : BatchState}

/-- The result of a run is made of the outcomes for the paths that were kept. Nothing is said here
of the files that were dropped; their number is in `length_kept_add_dropped`. -/
theorem gathers (h : s.Sound process paths) (root : String) :
    (s.result root).Gathers process root (s.kept paths) := by
  rw [result, BatchResult.foldl_add, h.filterMap_outcomes, BatchResult.sort]
  simp only [List.nil_append, Nat.zero_add]
  constructor
  case reports => exact List.mergeSort_perm _ _
  case failures => exact List.mergeSort_perm _ _
  case filesChecked => simp only [List.length_mergeSort]
  case reportsSorted => exact BatchResult.sorted_mergeSort FileReport.path _
  case failuresSorted => exact BatchResult.sorted_mergeSort FileFailure.path _

/-- The result says whether a file was dropped, and not whether a request was made: a request that
comes when all files are done leaves no trace. -/
theorem cancelled_iff (s : BatchState) (root : String) :
    (s.result root).cancelled = true ↔ 0 < s.dropped := by
  rw [result, BatchResult.foldl_add, BatchResult.sort, dropped, List.countP_pos_iff]
  simp

end BatchState.Sound

/-- A batch under any schedule. The result is that of `Engine.analyzeBatch` for the files that
finished. It holds the whole outcomes for the paths of these files, each once, sorted by path; it
counts the reports, and it says whether a file was dropped, which takes a request to cancel. If none
was dropped and no two reports or failures have the same path, then the result is the same for every
schedule and every order of the paths. -/
theorem batch_run_gathers (e : Engine) (root : String) (read : FileReader) (fix : Option Bool)
    {paths : List String} {s : BatchState} (hrun : s.Reached (e.process root read fix) paths)
    (hcomplete : s.Complete) :
    s.result root = e.analyzeBatch root read fix s.finishes paths ∧
      (s.kept paths).Sublist paths ∧
      (s.result root).Gathers (e.process root read fix) root (s.kept paths) ∧
      (s.result root).reports.length + (s.result root).failures.length + s.dropped =
        paths.length ∧
      ((s.result root).cancelled = true ↔ 0 < s.dropped) ∧
      (s.cancelled = false → s.dropped = 0) ∧
      ∀ (paths' : List String) (s' : BatchState), paths'.Perm paths →
        s'.Reached (e.process root read fix) paths' → s'.Complete → s.dropped = 0 →
        s'.dropped = 0 → (s.result root).DistinctPaths → s'.result root = s.result root := by
  have hsound := hrun.sound
  have hgathers := hsound.gathers root
  have hcancelled := @BatchState.Sound.cancelled_iff
  refine ⟨hsound.result_eq, s.kept_sublist paths, hgathers, ?_, hcancelled s root,
    hsound.dropped_eq_zero hcomplete, ?_⟩
  · -- Every kept path has one outcome, a report or a failure.
    rw [hgathers.reports.length_eq, hgathers.failures.length_eq,
      BatchResult.length_filterMap_outcomes, List.length_map]
    exact hsound.length_kept_add_dropped
  · -- If nothing was dropped, both runs kept all their paths, and these are the same up to their
    -- order.
    intro paths' s' hperm hrun' _ hnone hnone' hdistinct
    have hsound' := hrun'.sound
    refine hgathers.ext (hsound'.gathers root) ?_ hdistinct ?_
    · rwa [hsound.kept_eq hnone, hsound'.kept_eq hnone']
    · rw [Bool.eq_iff_iff, hcancelled, hcancelled, hnone, hnone']

/-- The outcome for a file when all but `c` can be read. -/
def mixedOutcome (path : String) : Except AnalyzeError FileReport :=
  Engine.process {} "" (fun path => if path = "c" then .error "gone" else .ok "fn f()\x7b\x7d") none
    path

/-- Three files, all done. -/
def allDone (first second third : String) : BatchState :=
  { progress := [first, second, third].map fun path => .finished (some (mixedOutcome path)) }

/-- Three files, the last one dropped when it was done. -/
def lastDropped : BatchState :=
  ⟨true, [.finished (some (mixedOutcome "b")), .finished (some (mixedOutcome "c")),
    .finished none]⟩

/-- Three workers begin, and are done in another order. -/
theorem allDone_reached (first second third : String) :
    (allDone first second third).Reached mixedOutcome [first, second, third] :=
  .head (@BatchStep.begin _ _ _ 0 rfl rfl) <| .head (@BatchStep.begin _ _ _ 1 rfl rfl) <|
    .head (@BatchStep.begin _ _ _ 2 rfl rfl) <| .head (@BatchStep.finish _ _ _ 2 third rfl rfl) <|
      .head (@BatchStep.finish _ _ _ 0 first rfl rfl) <|
        .head (@BatchStep.finish _ _ _ 1 second rfl rfl) .refl

/-- The request to cancel comes while the last file is under way, so that its outcome does not
count. -/
theorem lastDropped_reached : lastDropped.Reached mixedOutcome ["b", "c", "a"] :=
  .head (@BatchStep.begin _ _ _ 0 rfl rfl) <| .head (@BatchStep.begin _ _ _ 1 rfl rfl) <|
    .head (@BatchStep.begin _ _ _ 2 rfl rfl) <| .head (@BatchStep.finish _ _ _ 0 "b" rfl rfl) <|
      .head (@BatchStep.finish _ _ _ 1 "c" rfl rfl) <| .head (.cancel _) <|
        .head (@BatchStep.finish _ _ _ 2 "a" rfl rfl) .refl

/-- Distinct paths in another order are distinct. The order in which a result has them is that of
the sort, which need not be computed for this. -/
theorem BatchResult.DistinctPaths.of_perm {r : BatchResult} {reports failures : List String}
    (hreports : (r.reports.map (·.path)).Perm reports)
    (hfailures : (r.failures.map (·.path)).Perm failures)
    (hreportsApart : reports.Pairwise fun a b => Path.compare a b ≠ .eq)
    (hfailuresApart : failures.Pairwise fun a b => Path.compare a b ≠ .eq) : r.DistinctPaths := by
  constructor
  · exact List.pairwise_map.1 ((hreports.pairwise_iff Path.compare_ne_eq_symm).2 hreportsApart)
  · exact List.pairwise_map.1 ((hfailures.pairwise_iff Path.compare_ne_eq_symm).2 hfailuresApart)

/-- The paths of the reports and of the failures for three files, of which two can be read. -/
theorem paths_mixedOutcome :
    ((["b", "c", "a"].map mixedOutcome).filterMap Except.toOption).map (·.path) = ["b", "a"] ∧
      ((["b", "c", "a"].map mixedOutcome).filterMap (FileFailure.ofOutcome? "")).map (·.path) =
        ["c"] := by
  decide +kernel

/-- Three files, one of which cannot be read, in two orders, and once more with a request to cancel
before the last one is done. -/
theorem batch_run_gathers_mixed :
    (allDone "b" "c" "a").Reached mixedOutcome ["b", "c", "a"] ∧ (allDone "b" "c" "a").Complete ∧
      ((allDone "b" "c" "a").result "").DistinctPaths ∧
      (((allDone "b" "c" "a").result "").reports.map (·.path)).Perm ["b", "a"] ∧
      (((allDone "b" "c" "a").result "").failures.map (·.path)).Perm ["c"] ∧
      (allDone "c" "a" "b").result "" = (allDone "b" "c" "a").result "" ∧
      lastDropped.Reached mixedOutcome ["b", "c", "a"] ∧ lastDropped.Complete ∧
      (lastDropped.result "").reports.length + (lastDropped.result "").failures.length = 2 ∧
      (lastDropped.result "").cancelled = true := by
  have hcomplete : ∀ first second third, (allDone first second third).Complete := by
    intro first second third
    simp [allDone, BatchState.Complete]
  have hdropped : lastDropped.Complete := by simp [lastDropped, BatchState.Complete]
  have hrun := allDone_reached "b" "c" "a"
  obtain ⟨-, -, hgathers, -, -, -, hsame⟩ := batch_run_gathers {} "" _ none hrun (hcomplete _ _ _)
  obtain ⟨-, -, -, hcount, hcancelled, -⟩ :=
    batch_run_gathers {} "" _ none lastDropped_reached hdropped
  have hreports : (((allDone "b" "c" "a").result "").reports.map (·.path)).Perm ["b", "a"] := by
    rw [← paths_mixedOutcome.1]
    exact hgathers.reports.map _
  have hfailures : (((allDone "b" "c" "a").result "").failures.map (·.path)).Perm ["c"] := by
    rw [← paths_mixedOutcome.2]
    exact hgathers.failures.map _
  -- Distinct paths are a matter of which ones there are, so nothing need be sorted here.
  have hdistinct := BatchResult.DistinctPaths.of_perm hreports hfailures (by decide) (by decide)
  refine ⟨hrun, hcomplete _ _ _, hdistinct, hreports, hfailures, ?_, lastDropped_reached, hdropped,
    Nat.add_right_cancel hcount, hcancelled.2 (by decide)⟩
  exact hsame ["c", "a", "b"] (allDone "c" "a" "b") (by decide) (allDone_reached "c" "a" "b")
    (hcomplete _ _ _) rfl rfl hdistinct

end Arborist
