import Arborist.Catalog
import Arborist.Config.Basic

/-!
# `Arborist.Interest`: who wants to see which nodes

For one category of files, the rules of a catalog that apply to it and are enabled, with their
severities. The subscribers for a kind of node come in the order of the catalog and then in the
order of registration.
-/

set_option autoImplicit false

namespace Arborist

/-- A rule in use. -/
structure ActiveRule where
  rule : Rule
  /-- The severity after configuration. -/
  severity : Severity

/-- A callback to be called for a kind of node. -/
structure Subscriber where
  /-- Position of its rule among the rules in use. -/
  position : Nat
  active : ActiveRule
  subscription : Subscription

/-- The rules in use for one category of files. -/
structure Interest where
  category : FileCategory
  rules : List ActiveRule

namespace Interest

/-- The rules that accept the category and are enabled. -/
def build (catalog : Catalog) (config : Config) (category : FileCategory) : Interest where
  category := category
  rules := (catalog.rules.filter fun rule =>
      rule.descriptor.applicability.accepts category && config.isEnabled rule.descriptor).map
    fun rule => ⟨rule, config.severityOf rule.descriptor⟩

/-- Every callback of the rules in use. -/
def subscribers (i : Interest) : List Subscriber :=
  i.rules.zipIdx.flatMap fun (active, position) =>
    active.rule.subscriptions.map fun subscription => ⟨position, active, subscription⟩

/-- The callbacks for a kind of node. -/
def subscribersOf (i : Interest) (kind : NodeKind) : List Subscriber :=
  i.subscribers.filter (·.subscription.kind = kind)

def isEmpty (i : Interest) : Bool := i.rules.isEmpty

end Interest

end Arborist
