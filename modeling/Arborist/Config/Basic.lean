import Arborist.Fix.Resolver
import Arborist.Rule.Descriptor
import Arborist.Toml.Value

/-!
# `Arborist.Config.Basic`: what a user can set

A configuration names a preset of rules, says from which severity on a check fails, sets up the
analyzer, and has a table for each rule that is to differ from its defaults. The table of a rule is
looked up by the rule's name first and by its code then.
-/

set_option autoImplicit false

namespace Arborist

/-- How files are found and fixed. -/
structure AnalyzerConfig where
  /-- The directory to analyze. -/
  root : String := "."
  /-- Patterns of files to leave out. -/
  exclude : List String := []
  /-- Files that the version control ignores are left out as well. -/
  respectGitignore : Bool := true
  /-- Number of workers; one per processor if absent. -/
  parallelism : Option Nat := none
  /-- How many bytes the edits of a fix may reach beyond its diagnostic. -/
  fixSlack : Nat := defaultSlack
  /-- Fixes that may change behaviour are applied as well. -/
  unsafeFixes : Bool := false
  deriving DecidableEq, Repr

/-- The table of one rule. -/
structure RuleConfig where
  enabled : Option Bool := none
  severity : Option Severity := none
  /-- Everything else in the table. -/
  options : List (String × Toml.Value) := []
  deriving Repr, Inhabited

namespace RuleConfig

/-- An option that is a truth value, or `fallback`. -/
def flag (c : RuleConfig) (key : String) (fallback : Bool) : Bool :=
  ((Toml.Value.entry? c.options key).bind Toml.Value.asBool?).getD fallback

/-- The texts in an option that is an array; its other elements do not count. -/
def texts (c : RuleConfig) (key : String) : List String :=
  (((Toml.Value.entry? c.options key).bind Toml.Value.asArray?).getD []).filterMap
    Toml.Value.asString?

end RuleConfig

/-- What a user can set. -/
structure Config where
  preset : Option String := none
  /-- The severity from which on a check fails. -/
  failOn : Option Severity := none
  analyzer : AnalyzerConfig := { exclude := ["**/target/**", "**/vendor/**"] }
  /-- The tables of rules by name or code. -/
  rules : List (String × RuleConfig) := []
  deriving Repr

namespace Config

/-- The table under a key. -/
def table? (c : Config) (key : String) : Option RuleConfig :=
  (c.rules.find? (·.1 = key)).map (·.2)

/-- The table of a rule, by name or else by code. -/
def ruleConfig? (c : Config) (d : Descriptor) : Option RuleConfig :=
  (c.table? d.name).orElse fun _ => c.table? d.code

/-- A rule is on unless its table says otherwise. -/
def isEnabled (c : Config) (d : Descriptor) : Bool :=
  ((c.ruleConfig? d).bind (·.enabled)).getD true

/-- The severity of a rule: that of its table or its own. -/
def severityOf (c : Config) (d : Descriptor) : Severity :=
  ((c.ruleConfig? d).bind (·.severity)).getD d.severity

/-- The severity from which on a check fails. -/
def failThreshold (c : Config) : Severity := c.failOn.getD .error

end Config

end Arborist
