import Arborist.Fix.Resolver
import Arborist.Tree.Json

/-!
# `Arborist.Fix.Json`: fixes as JSON

A reason for a rejection is a record with its kind in the member `reason`; a fault of a proposal is
its name, with what belongs to it as the value of a member of that name.
-/

set_option autoImplicit false

namespace Arborist

namespace Edit

def toJson (e : Edit) : Json :=
  .object [("range", e.range.toJson), ("replacement", .string e.replacement)]

def ofJson? (j : Json) : Option Edit := do
  match ← j.fields? ["range", "replacement"] with
  | [range, replacement] =>
    return ⟨← Json.required TextRange.ofJson? range, ← Json.required Json.asString? replacement⟩
  | _ => none

end Edit

namespace Proposal

/-- A priority: a 32-bit number. -/
def priorityOfJson? (j : Json) : Option Int := do
  let n ← j.asInt?
  if -(Int.pow 2 31) ≤ n ∧ n < Int.pow 2 31 then some n else none

def toJson (p : Proposal) : Json :=
  .object [("diagnostic", .ofNat p.diagnostic), ("priority", .int p.priority),
    ("edits", .ofList Edit.toJson p.edits), ("label", .string p.label),
    ("safety", .string p.safety.name)]

def ofJson? (j : Json) : Option Proposal := do
  match ← j.fields? ["diagnostic", "priority", "edits", "label", "safety"] with
  | [diagnostic, priority, edits, label, safety] =>
    return {
      diagnostic := ← Json.required Json.asNat? diagnostic
      priority := ← Json.required priorityOfJson? priority
      edits := ← Json.required (Json.asListOf? Edit.ofJson?) edits
      label := ← Json.required Json.asString? label
      safety := ← Json.required (fun j => j.asConstant?.bind Safety.ofName?) safety }
  | _ => none

end Proposal

namespace FixError

def toJson : FixError → Json
  | .empty => .string "Empty"
  | .unknownDiagnostic position => .object [("UnknownDiagnostic", .ofNat position)]
  | .inverted range => .object [("Inverted", range.toJson)]
  | .outOfBounds range length =>
    .object [("OutOfBounds", .object [("range", range.toJson), ("len", .ofNat length)])]
  | .outsideDiagnostic range allowed =>
    .object [("OutsideDiagnostic", .object [("range", range.toJson), ("allowed", allowed.toJson)])]
  | .overlapping first second =>
    .object [("Overlapping", .object [("first", first.toJson), ("second", second.toJson)])]

/-- Two members of a record. -/
def pairOfJson? {α β : Type} (first second : String) (decodeFirst : Json → Option α)
    (decodeSecond : Json → Option β) (j : Json) : Option (α × β) := do
  match ← j.fields? [first, second] with
  | [a, b] => return (← Json.required decodeFirst a, ← Json.required decodeSecond b)
  | _ => none

def ofJson? : Json → Option FixError
  | .string "Empty" => some .empty
  | .object [("Empty", .null)] => some .empty
  | .object [("UnknownDiagnostic", j)] => j.asNat?.map .unknownDiagnostic
  | .object [("Inverted", j)] => (TextRange.ofJson? j).map .inverted
  | .object [("OutOfBounds", j)] =>
    (pairOfJson? "range" "len" TextRange.ofJson? Json.asNat? j).map fun (r, n) => .outOfBounds r n
  | .object [("OutsideDiagnostic", j)] =>
    (pairOfJson? "range" "allowed" TextRange.ofJson? TextRange.ofJson? j).map fun (r, a) =>
      .outsideDiagnostic r a
  | .object [("Overlapping", j)] =>
    (pairOfJson? "first" "second" TextRange.ofJson? TextRange.ofJson? j).map fun (a, b) =>
      .overlapping a b
  | _ => none

end FixError

namespace Rejection

def toJson : Rejection → Json
  | .invalid error => .object [("reason", .string "invalid"), ("error", error.toJson)]
  | .conflict label => .object [("reason", .string "conflict"), ("with", .string label)]
  | .risky => .object [("reason", .string "unsafe")]

/-- The one member of a record. -/
def memberOfJson? {α : Type} (name : String) (decode : Json → Option α) (j : Json) : Option α := do
  match ← j.fields? [name] with
  | [value] => Json.required decode value
  | _ => none

/-- The rejection of a kind; `j` holds what belongs to it. -/
def ofKind? (kind : String) (j : Json) : Option Rejection :=
  match kind, j with
  | "invalid", j => (memberOfJson? "error" FixError.ofJson? j).map .invalid
  | "conflict", j => (memberOfJson? "with" Json.asString? j).map .conflict
  | "unsafe", .object _ => some .risky
  | "unsafe", .array [] => some .risky
  | _, _ => none

def ofJson? : Json → Option Rejection
  | .object members => do
    let kind ← Json.required Json.asString? (← Json.field? members "reason")
    ofKind? kind (.object (members.filter (·.1 ≠ "reason")))
  | .array (.string kind :: rest) => ofKind? kind (.array rest)
  | _ => none

end Rejection

namespace RejectedFix

def toJson (r : RejectedFix) : Json :=
  .object [("proposal", r.proposal.toJson), ("reason", r.reason.toJson)]

def ofJson? (j : Json) : Option RejectedFix := do
  match ← j.fields? ["proposal", "reason"] with
  | [proposal, reason] =>
    return ⟨← Json.required Proposal.ofJson? proposal, ← Json.required Rejection.ofJson? reason⟩
  | _ => none

end RejectedFix

namespace Resolution

def toJson (r : Resolution) : Json :=
  .object [("accepted", .ofList Proposal.toJson r.accepted),
    ("rejected", .ofList RejectedFix.toJson r.rejected)]

def ofJson? (j : Json) : Option Resolution := do
  match ← j.fields? ["accepted", "rejected"] with
  | [accepted, rejected] =>
    return ⟨← Json.required (Json.asListOf? Proposal.ofJson?) accepted,
      ← Json.required (Json.asListOf? RejectedFix.ofJson?) rejected⟩
  | _ => none

end Resolution

end Arborist
