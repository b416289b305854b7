import Arborist.Severity
import Arborist.SourceFile

/-!
# `Arborist.Diagnostic`: what rules report

A diagnostic is a finding of a rule, or the report that a rule could not go on. Both name the rule
by its code and by its name and point at a range of the file. Lines and columns are filled in when
the report of the file is finished (`Arborist.Reporter`).

`Diagnostic.compare` is the order of a finished report. It does not look at the message: diagnostics
that agree in range, code and kind keep the order in which they were reported.
-/

set_option autoImplicit false

namespace Arborist

/-- Whether a rule found something or could not go on. -/
inductive DiagnosticKind where
  | finding
  | internalError
  deriving DecidableEq, Repr, Inhabited

namespace DiagnosticKind

def name : DiagnosticKind → String
  | .finding => "finding"
  | .internalError => "internal-error"

/-- Position in the order of kinds. -/
def rank : DiagnosticKind → Nat
  | .finding => 0
  | .internalError => 1

def ofName? (text : String) : Option DiagnosticKind :=
  [finding, internalError].find? (·.name = text)

end DiagnosticKind

/-- A report about a range of a file. -/
structure Diagnostic where
  code : String
  /-- The name of the rule. -/
  rule : String
  severity : Severity
  range : TextRange
  /-- Zero until the report is final. -/
  location : Location := {}
  message : String
  /-- What to do about it. -/
  correction : Option String := none
  kind : DiagnosticKind := .finding
  deriving DecidableEq, Repr, Inhabited

namespace Diagnostic

/-- A report that a rule could not go on. -/
def internal (code rule : String) (range : TextRange) (message : String) : Diagnostic :=
  { code, rule, severity := .error, range, message, kind := .internalError }

def isFinding (d : Diagnostic) : Bool := d.kind = .finding

/-- One line: place, severity, code and message. -/
def render (d : Diagnostic) : String :=
  s!"{d.location.line}:{d.location.column}: {d.severity.name} [{d.code}] {d.message}"

/-- The paragraph for a terminal. -/
def paragraph (d : Diagnostic) (path : String) : String :=
  let label := match d.kind with
    | .finding => d.severity.name
    | .internalError => "internal error"
  s!"{d.code} {d.rule} at {path}:{d.location.line}:{d.location.column}\n  {label}: {d.message}\n" ++
    match d.correction with
    | some correction => s!"  = help: {correction}\n"
    | none => ""

/-- The headline above an excerpt of the source. -/
def headline (d : Diagnostic) : String := s!"[{d.code}] {d.message}"

/-- The order of a final report: by start, code, kind and end. -/
def compare (a b : Diagnostic) : Ordering :=
  (Ord.compare a.range.start b.range.start).then <|
    (Ord.compare a.code b.code).then <|
      (Ord.compare a.kind.rank b.kind.rank).then (Ord.compare a.range.stop b.range.stop)

/-- `a` does not come after `b`. -/
def le (a b : Diagnostic) : Bool := a.compare b != .gt

end Diagnostic

end Arborist
