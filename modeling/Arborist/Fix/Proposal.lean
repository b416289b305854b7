import Arborist.Fix.Edit

/-!
# `Arborist.Fix.Proposal`: fixes that rules propose

A proposal belongs to one diagnostic and makes one or more edits together. It is valid if each of
its edits cuts the text between characters near the diagnostic and no two of them conflict. Checking
neighbours in the order of the text is enough for the last condition.
-/

set_option autoImplicit false

namespace Arborist

/-- Whether a fix keeps the behaviour of the program. -/
inductive Safety where
  | safe
  | risky
  deriving DecidableEq, Repr, Inhabited

namespace Safety

def name : Safety → String
  | .safe => "safe"
  | .risky => "unsafe"

def ofName? (text : String) : Option Safety := [safe, risky].find? (·.name = text)

end Safety

/-- A fix proposed for one diagnostic. -/
structure Proposal where
  /-- Position of the diagnostic in the report. -/
  diagnostic : Nat := 0
  /-- Of two conflicting proposals the one with the higher priority wins. -/
  priority : Int := 0
  edits : List Edit
  label : String
  safety : Safety := .safe
  deriving DecidableEq, Repr, Inhabited

namespace Proposal

/-- Where the first edit starts; zero without edits. -/
def start (p : Proposal) : Nat := ((p.edits.head?).map (·.range.start)).getD 0

/-- An edit of the one conflicts with an edit of the other. -/
def conflictsWith (p q : Proposal) : Bool :=
  p.edits.any fun a => q.edits.any fun b => a.range.conflictsWith b.range

/-- The proposal with its edits in the order of the text. -/
def sorted (p : Proposal) : Proposal := { p with edits := Edit.sort p.edits }

/-- What is wrong with an edit on its own, if anything. -/
def editFault? (source : String) (allowed : TextRange) (edit : Edit) : Option FixError :=
  let range := edit.range
  let length := Text.byteLength source.toList
  if range.stop < range.start then some (.inverted range)
  else if length < range.stop || !Text.isBoundary source range.start ||
      !Text.isBoundary source range.stop then some (.outOfBounds range length)
  else if !allowed.contains range then some (.outsideDiagnostic range allowed)
  else none

/-- The first two neighbours that conflict. -/
def neighbourFault? : List Edit → Option FixError
  | a :: b :: edits =>
    if a.range.conflictsWith b.range then some (.overlapping a.range b.range)
    else neighbourFault? (b :: edits)
  | _ => none

/-- Checks a proposal for a diagnostic at `range`; its edits may reach `slack` bytes beyond it. The
result is the proposal with its edits in order and what is wrong with it. A proposal with a fault in
a single edit stays as it is. -/
def validate (p : Proposal) (slack : Nat) (range : TextRange) (source : String) :
    Proposal × Option FixError :=
  if p.edits.isEmpty then (p, some .empty)
  else
    let allowed := range.expand slack (Text.byteLength source.toList)
    match p.edits.findSome? (editFault? source allowed) with
    | some fault => (p, some fault)
    | none => (p.sorted, neighbourFault? p.sorted.edits)

end Proposal

end Arborist
