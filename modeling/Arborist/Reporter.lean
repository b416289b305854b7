import Arborist.Diagnostic
import Arborist.Suppression

/-!
# `Arborist.Reporter`: collecting diagnostics

A rule reports a range once: a second report with the same kind, code and range is dropped. Failures
of a rule and its findings do not stand in each other's way.
-/

set_option autoImplicit false

namespace Arborist

/-- The diagnostics so far, in the order of reporting. -/
structure Reporter where
  diagnostics : List Diagnostic := []
  deriving Repr

namespace Reporter

/-- The same kind, code and range. -/
def sameReport (a b : Diagnostic) : Bool :=
  a.kind = b.kind ∧ a.code = b.code ∧ a.range = b.range

/-- Reports a diagnostic; the answer is whether it was new. -/
def report (r : Reporter) (d : Diagnostic) : Bool × Reporter :=
  if r.diagnostics.any (sameReport d) then (false, r) else (true, ⟨r.diagnostics ++ [d]⟩)

/-- The final report of a file: located, without the findings that a directive allows, and in
order. -/
def finalize (r : Reporter) (file : SourceFile) (suppressions : Suppressions) : List Diagnostic :=
  let located := r.diagnostics.map fun d => { d with location := file.location d.range }
  let kept := located.filter fun d =>
    !(d.isFinding && (suppressions.find? d.location.line d.code d.rule).isSome)
  kept.mergeSort Diagnostic.le

end Reporter

end Arborist
