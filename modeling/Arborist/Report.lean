import Arborist.Fix.Resolver

/-!
# `Arborist.Report`: results of an analysis

The report of a file holds its diagnostics, counts of the walk, and the outcome of fixing if fixes
were asked for. The result of a batch holds the reports of the files that were analyzed and the
failures of those that were not. A report with diagnostics is no failure, and a failure has no
report.
-/

set_option autoImplicit false

namespace Arborist

/-- What was done during one walk over a tree. -/
structure WalkStats where
  /-- Nodes visited. -/
  nodes : Nat := 0
  /-- Callbacks called. -/
  invocations : Nat := 0
  /-- Rules that failed. -/
  failedRules : Nat := 0
  deriving DecidableEq, Repr, Inhabited

/-- What fixing a file came to. -/
structure FixOutcome where
  resolution : Resolution
  /-- The edits made, in the order of the text. -/
  edits : List Edit
  /-- The new text; none if nothing changed. -/
  fixed : Option String := none
  deriving DecidableEq, Repr

namespace FixOutcome

/-- Number of proposals applied. -/
def applied (o : FixOutcome) : Nat := o.resolution.accepted.length

def changed (o : FixOutcome) : Bool := o.fixed.isSome

end FixOutcome

/-- The result for one file. -/
structure FileReport where
  path : String
  category : FileCategory
  diagnostics : List Diagnostic
  stats : WalkStats := {}
  fix : Option FixOutcome := none
  deriving DecidableEq, Repr

namespace FileReport

/-- Some diagnostic is at least as severe. -/
def hasViolationsAt (r : FileReport) (severity : Severity) : Bool :=
  r.diagnostics.any fun d => severity.le d.severity

/-- The diagnostics that are no failures of a rule. -/
def findings (r : FileReport) : List Diagnostic := r.diagnostics.filter Diagnostic.isFinding

end FileReport

/-- A file that could not be analyzed. -/
structure FileFailure where
  path : String
  message : String
  deriving DecidableEq, Repr

/-- The result for a batch of files. -/
structure BatchResult where
  reports : List FileReport := []
  failures : List FileFailure := []
  filesChecked : Nat := 0
  /-- Some file was dropped because the batch was cancelled. -/
  cancelled : Bool := false
  deriving DecidableEq, Repr

namespace BatchResult

/-- All diagnostics, each with the path of its file. -/
def diagnostics (r : BatchResult) : List (String × Diagnostic) :=
  r.reports.flatMap fun report => report.diagnostics.map fun d => (report.path, d)

/-- Some diagnostic is at least as severe. -/
def hasViolationsAt (r : BatchResult) (severity : Severity) : Bool :=
  r.reports.any (·.hasViolationsAt severity)

/-- Number of diagnostics of one severity. -/
def count (r : BatchResult) (severity : Severity) : Nat :=
  (r.diagnostics.filter fun (_, d) => d.severity = severity).length

end BatchResult

end Arborist
