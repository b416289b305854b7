import Arborist.Text.LowerCase

/-!
# `Arborist.Severity`: how serious a diagnostic is

There are three severities, and a run can be made to fail from any of them on. They are written with
their names in lower case and read in any letter case.
-/

set_option autoImplicit false

namespace Arborist

/-- How serious a diagnostic is, from the least to the most. -/
inductive Severity where
  | info
  | warning
  | error
  deriving DecidableEq, Repr, Inhabited

namespace Severity

/-- Every severity, from the least to the most serious. -/
def all : List Severity := [.info, .warning, .error]

def name : Severity → String
  | .info => "info"
  | .warning => "warning"
  | .error => "error"

/-- Position in increasing order of seriousness. -/
def rank : Severity → Nat
  | .info => 0
  | .warning => 1
  | .error => 2

/-- `a` is at most as serious as `b`. -/
def le (a b : Severity) : Bool := a.rank ≤ b.rank

/-- The severity with exactly this name. -/
def ofName? (text : String) : Option Severity := all.find? (·.name = text)

/-- Reads a severity in any letter case; `warn` is short for `warning`. The error is the text in
lower case. -/
def parse (text : String) : Except String Severity :=
  let lower := Text.lowerCase text
  if lower = "warn" then .ok .warning
  else match ofName? lower with
    | some severity => .ok severity
    | none => .error lower

/-- What to say of a text that names no severity. -/
def unknownMessage (lower : String) : String := "unknown severity: " ++ lower

end Severity

end Arborist
