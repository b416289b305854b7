import Arborist.Diagnostic
import Arborist.Fix.Proposal

/-!
# `Arborist.Fix.Resolver`: choosing proposals that go together

The resolver sorts out the proposals that are invalid on their own. It goes through the others by
priority, place and diagnostic, and accepts each one that does not conflict with one accepted
before. Proposals are never merged or cut: the edits of the accepted ones make up the script.
-/

set_option autoImplicit false

namespace Arborist

/-- Why a proposal was not accepted. -/
inductive Rejection where
  | invalid (error : FixError)
  /-- It conflicts with an accepted proposal of this label. -/
  | conflict (label : String)
  /-- It may change behaviour and such fixes were not asked for. -/
  | risky
  deriving DecidableEq, Repr

/-- A proposal that was not accepted. -/
structure RejectedFix where
  proposal : Proposal
  reason : Rejection
  deriving DecidableEq, Repr

/-- What became of a list of proposals. -/
structure Resolution where
  /-- In the order of acceptance. -/
  accepted : List Proposal := []
  rejected : List RejectedFix := []
  deriving DecidableEq, Repr, Inhabited

namespace Resolution

/-- All accepted edits in the order of the text. -/
def script (r : Resolution) : List Edit := Edit.sort (r.accepted.flatMap (·.edits))

/-- The accepted proposals for the diagnostic at a position of the report. -/
def forDiagnostic (r : Resolution) (position : Nat) : List Proposal :=
  r.accepted.filter (·.diagnostic = position)

/-- Accepts a proposal, unless it conflicts with an accepted one. -/
def accept (r : Resolution) (candidate : Proposal) : Resolution :=
  match r.accepted.find? (·.conflictsWith candidate) with
  | some winner => { r with rejected := r.rejected ++ [⟨candidate, .conflict winner.label⟩] }
  | none => { r with accepted := r.accepted ++ [candidate] }

end Resolution

/-- How many bytes the edits of a fix may reach beyond its diagnostic, unless configured. -/
def defaultSlack : Nat := 2

/-- How proposals are judged. -/
structure Resolver where
  slack : Nat := defaultSlack
  allowRisky : Bool := false
  deriving Repr

namespace Resolver

/-- Judges one proposal on its own: the proposal as checking left it, and why it is out. -/
def judge (r : Resolver) (diagnostics : List Diagnostic) (source : String) (p : Proposal) :
    Proposal × Option Rejection :=
  match diagnostics[p.diagnostic]? with
  | none => (p, some (.invalid (.unknownDiagnostic p.diagnostic)))
  | some diagnostic =>
    if p.safety = .risky && !r.allowRisky then (p, some .risky)
    else
      let (checked, fault) := p.validate r.slack diagnostic.range source
      (checked, fault.map .invalid)

/-- `p` is considered no later than `q`: by falling priority, then by the place of the first edit,
then by diagnostic. -/
def precedes (p q : Proposal) : Bool :=
  p.priority > q.priority || (p.priority == q.priority &&
    (p.start < q.start || (p.start == q.start && p.diagnostic ≤ q.diagnostic)))

/-- What becomes of the proposals for the diagnostics of a report about `source`. -/
def resolve (r : Resolver) (proposals : List Proposal) (diagnostics : List Diagnostic)
    (source : String) : Resolution :=
  let judged := proposals.map (r.judge diagnostics source)
  let rejected := judged.filterMap fun (p, out) => out.map fun reason => ⟨p, reason⟩
  let candidates := judged.filterMap fun (p, out) => if out.isNone then some p else none
  (candidates.mergeSort precedes).foldl Resolution.accept { rejected }

end Resolver

end Arborist
