import Arborist.Diagnostic.Json
import Arborist.Fix.Json
import Arborist.Report

/-!
# `Arborist.Report.Json`: results of an analysis as JSON

The new text of a fixed file is not written, so reading a result gives it back without those texts.
-/

set_option autoImplicit false

namespace Arborist

namespace WalkStats

def toJson (s : WalkStats) : Json :=
  .object [("nodes", .ofNat s.nodes), ("invocations", .ofNat s.invocations),
    ("failed_rules", .ofNat s.failedRules)]

def ofJson? (j : Json) : Option WalkStats := do
  match ← j.fields? ["nodes", "invocations", "failed_rules"] with
  | [nodes, invocations, failedRules] =>
    return ⟨← Json.required Json.asNat? nodes, ← Json.required Json.asNat? invocations,
      ← Json.required Json.asNat? failedRules⟩
  | _ => none

end WalkStats

namespace FixOutcome

def toJson (o : FixOutcome) : Json :=
  .object [("resolution", o.resolution.toJson), ("edits", .ofList Edit.toJson o.edits)]

def ofJson? (j : Json) : Option FixOutcome := do
  match ← j.fields? ["resolution", "edits"] with
  | [resolution, edits] =>
    return {
      resolution := ← Json.required Resolution.ofJson? resolution
      edits := ← Json.required (Json.asListOf? Edit.ofJson?) edits }
  | _ => none

end FixOutcome

namespace FileReport

def toJson (r : FileReport) : Json :=
  .object <|
    [("path", .string r.path), ("category", r.category.toJson),
     ("diagnostics", .ofList Diagnostic.toJson r.diagnostics), ("stats", r.stats.toJson)] ++
    r.fix.toList.map fun outcome => ("fix", outcome.toJson)

def ofJson? (j : Json) : Option FileReport := do
  match ← j.fields? ["path", "category", "diagnostics", "stats", "fix"] with
  | [path, category, diagnostics, stats, fix] =>
    return {
      path := ← Json.required Json.asString? path
      category := ← Json.required FileCategory.ofJson? category
      diagnostics := ← Json.required (Json.asListOf? Diagnostic.ofJson?) diagnostics
      stats := ← Json.withDefault {} WalkStats.ofJson? stats
      fix := ← Json.withDefault none (Json.asOption? FixOutcome.ofJson?) fix }
  | _ => none

end FileReport

namespace FileFailure

def toJson (f : FileFailure) : Json :=
  .object [("path", .string f.path), ("message", .string f.message)]

def ofJson? (j : Json) : Option FileFailure := do
  match ← j.fields? ["path", "message"] with
  | [path, message] =>
    return ⟨← Json.required Json.asString? path, ← Json.required Json.asString? message⟩
  | _ => none

end FileFailure

namespace BatchResult

def toJson (r : BatchResult) : Json :=
  .object [("reports", .ofList FileReport.toJson r.reports),
    ("failures", .ofList FileFailure.toJson r.failures),
    ("files_checked", .ofNat r.filesChecked), ("cancelled", .bool r.cancelled)]

def ofJson? (j : Json) : Option BatchResult := do
  match ← j.fields? ["reports", "failures", "files_checked", "cancelled"] with
  | [reports, failures, filesChecked, cancelled] =>
    return {
      reports := ← Json.required (Json.asListOf? FileReport.ofJson?) reports
      failures := ← Json.required (Json.asListOf? FileFailure.ofJson?) failures
      filesChecked := ← Json.required Json.asNat? filesChecked
      cancelled := ← Json.withDefault false Json.asBool? cancelled }
  | _ => none

end BatchResult

end Arborist
