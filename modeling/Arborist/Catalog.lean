import Arborist.Rule.Basic
import Arborist.Text.WhiteSpace

/-!
# `Arborist.Catalog`: rules that go together

A catalog is a list of rules that was checked: codes, names and messages are not blank, messages are
balanced templates, codes differ from each other and so do names, and no rule uses a slot twice for
one kind of node. The first rule that breaks this, in the order of the list, is the error.
-/

set_option autoImplicit false

namespace Arborist

/-- Why rules make no catalog. -/
inductive CatalogError where
  | duplicateRule (key : String)
  | duplicateSubscription (rule : String) (kind : NodeKind) (slot : String)
  | invalidDescriptor (rule problem : String)
  deriving DecidableEq, Repr

namespace CatalogError

def message : CatalogError → String
  | .duplicateRule key => "Duplicate rule `" ++ key ++ "` in catalog"
  | .duplicateSubscription rule kind slot =>
    "Rule `" ++ rule ++ "` subscribed to `" ++ kind.name ++ "` twice in slot `" ++ slot ++ "`"
  | .invalidDescriptor rule problem =>
    "Invalid descriptor for rule `" ++ rule ++ "`: " ++ problem

end CatalogError

namespace Descriptor

/-- A text without anything but white space. -/
def isBlank (text : String) : Bool := (Text.trim text.toList).isEmpty

/-- What is wrong with a descriptor. -/
def problem? (d : Descriptor) : Option String :=
  if isBlank d.code then some "empty rule code"
  else if isBlank d.name then some "empty rule name"
  else if isBlank d.message then some "empty message template"
  else if !d.message.isBalanced then some "unbalanced braces in message template"
  else none

end Descriptor

namespace Rule

/-- The first subscription that repeats kind and slot of an earlier one. -/
def repeatedSubscription? : (before : List Subscription) → List Subscription → Option Subscription
  | _, [] => none
  | before, s :: rest =>
    if before.any fun b => b.kind = s.kind && b.slot = s.slot then some s
    else repeatedSubscription? (before ++ [s]) rest

/-- Checks a rule against the rules before it. -/
def check (before : List Rule) (rule : Rule) : Except CatalogError Unit :=
  let d := rule.descriptor
  match d.problem? with
  | some problem =>
    .error (.invalidDescriptor (if d.code.isEmpty then d.name else d.code) problem)
  | none =>
    if before.any (·.descriptor.code = d.code) then .error (.duplicateRule d.code)
    else if before.any (·.descriptor.name = d.name) then .error (.duplicateRule d.name)
    else match repeatedSubscription? [] rule.subscriptions with
      | some s => .error (.duplicateSubscription d.name s.kind s.slot)
      | none => .ok ()

end Rule

/-- A checked list of rules. -/
structure Catalog where
  rules : List Rule

namespace Catalog

/-- The catalog without rules. -/
def empty : Catalog := ⟨[]⟩

/-- Checks the rules in order, each against those before it. -/
def checkFrom : (before : List Rule) → List Rule → Except CatalogError Unit
  | _, [] => .ok ()
  | before, rule :: rest => do
    rule.check before
    checkFrom (before ++ [rule]) rest

/-- The catalog of the rules, if they go together. -/
def build (rules : List Rule) : Except CatalogError Catalog := do
  checkFrom [] rules
  return ⟨rules⟩

/-- The first rule with this code or name. -/
def get? (c : Catalog) (key : String) : Option Rule :=
  c.rules.find? (·.descriptor.answersTo key)

/-- One warning for each rule without subscriptions. -/
def warnings (c : Catalog) : List String :=
  (c.rules.filter (·.subscriptions.isEmpty)).map fun _ => "rule registered no subscriptions"

end Catalog

end Arborist
