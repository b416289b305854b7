import Arborist.Engine

/-!
# `Arborist.Batch`: analyzing many files

Every file of a batch is processed on its own, and the results are put together in the order of
their paths. A file that fails does not stop the others. When a batch is cancelled, the files that
have not finished by then are dropped.
-/

set_option autoImplicit false

namespace Arborist

/-- Reads a file; an error is the cause in words. -/
abbrev FileReader := String → Except String String

namespace Engine

/-- Processes one file of a batch; `fix` asks for fixes and says whether they may change
behaviour. -/
def process (e : Engine) (root : String) (read : FileReader) (fix : Option Bool) (path : String) :
    Except AnalyzeError FileReport := do
  let content ← (read path).mapError (.read path)
  let file := SourceFile.ofPath path content root
  let tree ← (SyntaxTree.ofSource content).mapError (.source file.path)
  let report ← e.analyze file tree
  match fix with
  | none => return report
  | some allowRisky => return { report with fix := some (← e.fix file tree report allowRisky) }

end Engine

namespace FileFailure

/-- The record of an error, under the path below the root. -/
def ofError (root : String) (error : AnalyzeError) : FileFailure :=
  ⟨(Path.relativeTo? error.path root).getD error.path, error.message⟩

end FileFailure

namespace BatchResult

/-- Adds the outcome for one file; none if the file was dropped. -/
def add (root : String) (r : BatchResult) : Option (Except AnalyzeError FileReport) → BatchResult
  | some (.ok report) =>
    { r with filesChecked := r.filesChecked + 1, reports := r.reports ++ [report] }
  | some (.error error) => { r with failures := r.failures ++ [.ofError root error] }
  | none => { r with cancelled := true }

/-- Puts reports and failures into the order of their paths. -/
def sort (r : BatchResult) : BatchResult :=
  { r with
    reports := r.reports.mergeSort fun a b => Path.le a.path b.path
    failures := r.failures.mergeSort fun a b => Path.le a.path b.path }

end BatchResult

namespace Engine

/-- Analyzes the files of a batch; `finishes` says of a position in the list whether that file
finishes before the batch is cancelled. -/
def analyzeBatch (e : Engine) (root : String) (read : FileReader) (fix : Option Bool)
    (finishes : Nat → Bool) (paths : List String) : BatchResult :=
  let outcomes := paths.zipIdx.map fun (path, position) =>
    if finishes position then some (e.process root read fix path) else none
  (outcomes.foldl (BatchResult.add root) {}).sort

end Engine

end Arborist
