import Arborist.Proofs.Batch
import Arborist.Proofs.Path.Components

/-!
# `Arborist.Proofs.Batch.RecordedPath`: the paths that a batch reports

A file of a batch goes by its path below the root. Reports have this path from the start. Errors
have it too, except that a file which cannot be read is named as it was given; the root is taken
away from all of them when they are recorded. An error that has the path below the root already can
lose the components of the root once more: `batch_records_paths` says when.
-/

set_option autoImplicit false

namespace Arborist

open Arborist.Path (components below stripped)

/-- The path that an outcome is about. -/
def outcomePath : Except AnalyzeError FileReport → String
  | .ok report => report.path
  | .error error => error.path

namespace Engine

variable (e : Engine)

/-- The report of an analysis has the path of the file, and so has the error if the tree does not
fit the text. -/
theorem outcomePath_analyze (file : SourceFile) (tree : SyntaxTree) :
    outcomePath (e.analyze file tree) = file.path := by
  rw [analyze]
  cases tree.validate (Text.byteLength file.content.toList) <;> rfl

/-- Fixing a file can only fail under the path of the file. The one way to fail is a script that
cannot be applied. -/
theorem path_of_fix_eq_error {file : SourceFile} {tree : SyntaxTree} {report : FileReport}
    {allowRisky : Bool} {error : AnalyzeError}
    (h : e.fix file tree report allowRisky = .error error) : error.path = file.path := by
  simp only [fix] at h
  split at h
  · cases h
  · split at h
    · cases h
    · cases h
      rfl

/-- A file that can be read goes by its path below the root, whatever comes of it. One that cannot
be read goes by the path that was given for it, because its error is made before the file is. -/
theorem outcomePath_process (root : String) (read : FileReader) (fix : Option Bool)
    (path : String) :
    outcomePath (e.process root read fix path) =
      if (read path).isOk then below root path else path := by
  rw [process]
  cases read path with
  | error cause => rfl
  | ok content =>
      -- From here on every stage keeps the path of this file, and the first one that fails ends the
      -- work.
      let file := SourceFile.ofPath path content root
      show outcomePath ((SyntaxTree.ofSource content).mapError (.source file.path) >>=
        fun tree => _) = file.path
      cases SyntaxTree.ofSource content with
      | error error => rfl
      | ok tree =>
          have hanalyze := e.outcomePath_analyze file tree
          show outcomePath (e.analyze file tree >>= fun report => _) = file.path
          cases hreport : e.analyze file tree with
          | error error => rwa [hreport] at hanalyze
          | ok report =>
              rw [hreport] at hanalyze
              cases fix with
              | none => exact hanalyze
              | some allowRisky =>
                  show outcomePath (e.fix file tree report allowRisky >>= fun outcome => _) =
                    file.path
                  cases hfix : e.fix file tree report allowRisky with
                  | error error => exact e.path_of_fix_eq_error hfix
                  | ok outcome => exact hanalyze

variable (root : String) (read : FileReader) (fix : Option Bool) (finishes : Nat → Bool)
  (paths : List String)

/-- The outcomes that count are those for the files that finish, by their position in the list of
paths. -/
theorem mem_outcomes_iff {process : String → Except AnalyzeError FileReport}
    {outcome : Except AnalyzeError FileReport} :
    outcome ∈ (paths.zipIdx.map fun (path, position) =>
        if finishes position then some (process path) else none).filterMap id ↔
      ∃ position path, paths[position]? = some path ∧ finishes position = true ∧
        process path = outcome := by
  simp only [List.filterMap_map, List.mem_filterMap, Prod.exists, Function.comp_apply, id_eq,
    List.mem_zipIdx_iff_getElem?]
  constructor
  · rintro ⟨path, position, hpath, hfinishes⟩
    split at hfinishes
    · rename_i hposition
      exact ⟨position, path, hpath, hposition, Option.some.inj hfinishes⟩
    · cases hfinishes
  · rintro ⟨position, path, hpath, hposition, houtcome⟩
    exact ⟨path, position, hpath, by rw [if_pos hposition, houtcome]⟩

/-- The failures in the result of a batch: one for each file that finishes with an error, recorded
as `FileFailure.ofError` records it. Sorting them has no influence on which ones there are. -/
theorem mem_failures_analyzeBatch {failure : FileFailure} :
    failure ∈ (e.analyzeBatch root read fix finishes paths).failures ↔
      ∃ position path error, paths[position]? = some path ∧ finishes position = true ∧
        e.process root read fix path = .error error ∧ failure = .ofError root error := by
  rw [analyzeBatch, BatchResult.sort, List.mem_mergeSort, BatchResult.foldl_add]
  show failure ∈ List.filterMap (FileFailure.ofOutcome? root) _ ↔ _
  simp only [List.mem_filterMap (f := FileFailure.ofOutcome? root), mem_outcomes_iff]
  constructor
  · rintro ⟨outcome, ⟨position, path, hpath, hposition, rfl⟩, hfailure⟩
    cases hprocess : e.process root read fix path with
    -- A report is no failure.
    | ok report =>
        rw [hprocess] at hfailure
        cases hfailure
    | error error =>
        rw [hprocess] at hfailure
        exact ⟨position, path, error, hpath, hposition, hprocess, (Option.some.inj hfailure).symm⟩
  · rintro ⟨position, path, error, hpath, hposition, hprocess, rfl⟩
    exact ⟨_, ⟨position, path, hpath, hposition, rfl⟩, by rw [hprocess]; rfl⟩

/-- The reports in the result of a batch are those of the files that finish without an error.
Sorting them at the end changes their order only. -/
theorem mem_reports_analyzeBatch {report : FileReport} :
    report ∈ (e.analyzeBatch root read fix finishes paths).reports ↔
      ∃ position path, paths[position]? = some path ∧ finishes position = true ∧
        e.process root read fix path = .ok report := by
  rw [analyzeBatch, BatchResult.sort, List.mem_mergeSort, BatchResult.foldl_add]
  show report ∈ List.filterMap Except.toOption _ ↔ _
  simp only [List.mem_filterMap (f := Except.toOption), mem_outcomes_iff]
  constructor
  · rintro ⟨outcome, ⟨position, path, hpath, hposition, rfl⟩, hreport⟩
    cases hprocess : e.process root read fix path with
    | ok other =>
        rw [hprocess] at hreport
        obtain rfl : other = report := Option.some.inj hreport
        exact ⟨position, path, hpath, hposition, hprocess⟩
    | error error =>
        rw [hprocess] at hreport
        cases hreport
  · rintro ⟨position, path, hpath, hposition, hprocess⟩
    exact ⟨_, ⟨position, path, hpath, hposition, rfl⟩, by rw [hprocess]; rfl⟩

/-- An error is recorded without the root, whether or not its path has been cut before. So the root
is taken away twice for a file that could be read, and once for one that could not. -/
theorem path_ofError_process {path : String} {error : AnalyzeError}
    (h : e.process root read fix path = .error error) :
    (FileFailure.ofError root error).path =
      if (read path).isOk then below root (below root path) else below root path := by
  have hpath := e.outcomePath_process root read fix path
  rw [h, outcomePath] at hpath
  show below root error.path = _
  rw [hpath]
  split <;> rfl

end Engine

/-- The paths in the result of a batch. Reports have the path of the file below the root, and so
have failures of files that cannot be read. The failure of any other file has this path with the
root taken away once more. That is the same path, spelled in one way or another, exactly if the root
has no components or the path below the root does not start with them; otherwise the components of
the root are missing at its front. -/
theorem batch_records_paths (e : Engine) (root : String) (read : FileReader) (fix : Option Bool)
    (finishes : Nat → Bool) (paths : List String) :
    let result := e.analyzeBatch root read fix finishes paths
    (∀ failure, failure ∈ result.failures ↔
      ∃ position path error, paths[position]? = some path ∧ finishes position = true ∧
        e.process root read fix path = .error error ∧ failure.message = error.message ∧
        failure.path =
          if (read path).isOk then below root (below root path) else below root path) ∧
    (∀ report, report ∈ result.reports → ∃ path content, path ∈ paths ∧ read path = .ok content ∧
      report.path = below root path ∧
      report.path = (SourceFile.ofPath path content root).path) ∧
    ∀ path,
      (components (below root (below root path)) = components (below root path) ↔
        components root = [] ∨ ¬ components root <+: components (below root path)) ∧
      (components root <+: components (below root path) →
        components (below root path) =
          components root ++ components (below root (below root path))) := by
  intro result
  refine ⟨fun failure => ?_, fun report hreport => ?_, fun path => ⟨?_, fun hstart => ?_⟩⟩
  · rw [Engine.mem_failures_analyzeBatch]
    refine exists_congr fun position => exists_congr fun path => exists_congr fun error => ?_
    refine and_congr_right fun _ => and_congr_right fun _ => and_congr_right fun hprocess => ?_
    rw [← e.path_ofError_process root read fix hprocess]
    cases failure
    simp [FileFailure.ofError, and_comm]
  · -- A report needs a text, so the file was read; then the path is that of the file itself.
    obtain ⟨position, path, hpath, -, hprocess⟩ :=
      (e.mem_reports_analyzeBatch root read fix finishes paths).1 hreport
    have hown := e.outcomePath_process root read fix path
    cases hread : read path with
    | error cause =>
        have herror : e.process root read fix path = .error (.read path cause) := by
          rw [Engine.process, hread]
          rfl
        rw [herror] at hprocess
        cases hprocess
    | ok content =>
        rw [hprocess, hread] at hown
        exact ⟨path, content, List.mem_of_getElem? hpath, hread, hown, hown⟩
  · rw [Path.components_below root (below root path)]
    exact Path.stripped_eq_self_iff
  · obtain ⟨rest, hrest⟩ := hstart
    rw [Path.components_below root (below root path), ← hrest, stripped,
      if_pos (List.prefix_append _ _), List.drop_left]

/-- Two files in a directory that has the name of the root: one cannot be read, the other one is no
source text. -/
theorem batch_records_paths_namesake :
    let read : FileReader := fun path => if path = "a/a/x.rs" then .ok ")" else .error "gone"
    let result := Engine.analyzeBatch {} "a" read none (fun _ => true) ["a/a/x.rs", "a/a/y.rs"]
    components "a" <+: components (below "a" "a/a/x.rs") ∧
      (∃ failure ∈ result.failures, failure.path = "x.rs") ∧
      (∃ failure ∈ result.failures, failure.path = "a/y.rs") ∧
      components (below "a" "a/a/x.rs") =
        components "a" ++ components (below "a" (below "a" "a/a/x.rs")) := by
  intro read result
  have hrecords := batch_records_paths {} "a" read none (fun _ => true) ["a/a/x.rs", "a/a/y.rs"]
  have hstart : components "a" <+: components (below "a" "a/a/x.rs") := by decide +kernel
  refine ⟨hstart, ?_, ?_, (hrecords.2.2 "a/a/x.rs").2 hstart⟩
  · -- Only that the analysis fails is computed. The message of the parser plays no role.
    have hfails : (Engine.process {} "a" read none "a/a/x.rs").isOk = false := by decide +kernel
    have htwice : "x.rs" = below "a" (below "a" "a/a/x.rs") := by decide +kernel
    cases hprocess : Engine.process {} "a" read none "a/a/x.rs" with
    | ok report =>
        rw [hprocess] at hfails
        cases hfails
    | error error =>
        refine ⟨⟨"x.rs", error.message⟩, (hrecords.1 _).2 ?_, rfl⟩
        exact ⟨0, "a/a/x.rs", error, rfl, rfl, hprocess, rfl, htwice⟩
  · let error : AnalyzeError := .read "a/a/y.rs" "gone"
    have hprocess : Engine.process {} "a" read none "a/a/y.rs" = .error error := by decide +kernel
    have honce : "a/y.rs" = below "a" "a/a/y.rs" := by decide +kernel
    refine ⟨⟨"a/y.rs", error.message⟩, (hrecords.1 _).2 ?_, rfl⟩
    exact ⟨1, "a/a/y.rs", error, rfl, rfl, hprocess, rfl, honce⟩

/-- The failure of a file whose tree does not fit is recorded under a path that is not the path of
the file below the root: the directory with the name of the root is lost. -/
theorem failure_loses_root_twice :
    let source := "fn f() { #![x] a; }\n"
    let result := Engine.analyzeBatch {} "a" (fun _ => .ok source) none (fun _ => true) ["a/a/x.rs"]
    result.failures.map (·.path) = ["x.rs"] ∧
      (SourceFile.ofPath "a/a/x.rs" source "a").path = "a/x.rs" := by
  decide +kernel

end Arborist
