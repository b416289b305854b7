import Arborist.Command.Arguments
import Arborist.Command.Excerpt
import Arborist.Command.Outcome
import Arborist.Json.Printer
import Arborist.Report.Json

/-!
# `Arborist.Command.Output`: printing results

A result can be printed in four formats. The text and the pretty format are for people and end with
a summary that counts diagnostics by severity; the compact format has one line for a diagnostic and
nothing else; the JSON format holds the whole result, failures included. In the other formats, files
that could not be analyzed are named apart from the result (`BatchResult.errorLines`).
-/

set_option autoImplicit false

namespace Arborist

namespace Diagnostic

/-- The severity, or that the rule could not go on. -/
def label (d : Diagnostic) : String :=
  match d.kind with
  | .finding => d.severity.name
  | .internalError => d.kind.name

/-- One line with the path, the place and the message. -/
def compactLine (d : Diagnostic) (path : String) : String :=
  s!"{path}:{d.location.line}:{d.location.column}: {d.label} [{d.code}] {d.message}\n"

end Diagnostic

namespace BatchResult

/-- The colour of the summary: red for errors, else yellow for warnings, else green. -/
def summaryColour (r : BatchResult) : String :=
  if r.count .error > 0 then "\x1b[31m"
  else if r.count .warning > 0 then "\x1b[33m"
  else "\x1b[32m"

/-- The last lines of an output for people. -/
def summary (r : BatchResult) : String :=
  let errors := r.count .error
  let warnings := r.count .warning
  let infos := r.count .info
  r.summaryColour ++
    s!"Found {errors} error(s), {warnings} warning(s), {infos} info(s) " ++
    s!"in {r.filesChecked} file(s)" ++
    "\x1b[0m\n" ++
    if r.cancelled then "Analysis was cancelled before every file finished\n" else ""

/-- The excerpts of a report; none if its file cannot be read again. -/
def excerpts (root : String) (files : Snapshot) (report : FileReport) : String :=
  match files.read (Path.join root report.path) with
  | .error _ => ""
  | .ok content =>
    String.join (report.diagnostics.map fun d => Excerpt.render report.path content d ++ "\n")

/-- The result in a format; `root` is where the paths of the reports start. -/
def render (r : BatchResult) (format : OutputFormat) (root : String) (files : Snapshot) : String :=
  match format with
  | .text => String.join (r.diagnostics.map fun (path, d) => d.paragraph path ++ "\n") ++ r.summary
  | .json => r.toJson.renderPretty ++ "\n"
  | .compact => String.join (r.diagnostics.map fun (path, d) => d.compactLine path)
  | .pretty => String.join (r.reports.map (excerpts root files)) ++ r.summary

/-- The lines about files that could not be analyzed; the JSON format has them in its text. -/
def errorLines (r : BatchResult) (format : OutputFormat) : List String :=
  if format = .json then [] else r.failures.map fun failure => "error: " ++ failure.message

end BatchResult

end Arborist
