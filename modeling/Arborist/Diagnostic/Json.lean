import Arborist.Diagnostic
import Arborist.Tree.Json

/-!
# `Arborist.Diagnostic.Json`: diagnostics as JSON

A diagnostic is a record with the members `code`, `rule`, `severity`, `range`, `location`,
`message`, `correction` and `kind`. Writing leaves out an absent correction. Reading does without
location and correction.
-/

set_option autoImplicit false

namespace Arborist

namespace Severity

def toJson (s : Severity) : Json := .string s.name

def ofJson? (j : Json) : Option Severity := j.asConstant?.bind ofName?

end Severity

namespace FileCategory

def toJson (c : FileCategory) : Json := .string c.name

def ofJson? (j : Json) : Option FileCategory := j.asConstant?.bind ofName?

end FileCategory

namespace DiagnosticKind

def toJson (k : DiagnosticKind) : Json := .string k.name

def ofJson? (j : Json) : Option DiagnosticKind := j.asConstant?.bind ofName?

end DiagnosticKind

namespace Location

def toJson (l : Location) : Json :=
  .object [("line", .ofNat l.line), ("column", .ofNat l.column), ("end_line", .ofNat l.endLine),
    ("end_column", .ofNat l.endColumn)]

def ofJson? (j : Json) : Option Location := do
  match ← j.fields? ["line", "column", "end_line", "end_column"] with
  | [line, column, endLine, endColumn] =>
    return {
      line := ← Json.required Json.asNat? line
      column := ← Json.required Json.asNat? column
      endLine := ← Json.required Json.asNat? endLine
      endColumn := ← Json.required Json.asNat? endColumn }
  | _ => none

end Location

namespace Diagnostic

def toJson (d : Diagnostic) : Json :=
  .object <|
    [("code", .string d.code), ("rule", .string d.rule), ("severity", d.severity.toJson),
     ("range", d.range.toJson), ("location", d.location.toJson), ("message", .string d.message)] ++
    (d.correction.toList.map fun correction => ("correction", .string correction)) ++
    [("kind", d.kind.toJson)]

def ofJson? (j : Json) : Option Diagnostic := do
  match ← j.fields?
      ["code", "rule", "severity", "range", "location", "message", "correction", "kind"] with
  | [code, rule, severity, range, location, message, correction, kind] =>
    return {
      code := ← Json.required Json.asString? code
      rule := ← Json.required Json.asString? rule
      severity := ← Json.required Severity.ofJson? severity
      range := ← Json.required TextRange.ofJson? range
      location := ← Json.withDefault {} Location.ofJson? location
      message := ← Json.required Json.asString? message
      correction := ← Json.withDefault none (Json.asOption? Json.asString?) correction
      kind := ← Json.required DiagnosticKind.ofJson? kind }
  | _ => none

end Diagnostic

end Arborist
