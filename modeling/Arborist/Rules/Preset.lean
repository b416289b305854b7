import Arborist.Engine
import Arborist.Rules.DebugMacro
import Arborist.Rules.DocComment
import Arborist.Rules.LengthComparison
import Arborist.Rules.Placeholder
import Arborist.Rules.UnwrapExpect

/-!
# `Arborist.Rules.Preset`: selections of rules

A preset selects rules and their settings. What the configuration has in the table of a rule goes on
top of the settings of the preset.
-/

set_option autoImplicit false

namespace Arborist

/-- A selection of rules. -/
inductive Preset where
  | recommended
  | strict
  | minimal
  | all
  deriving DecidableEq, Repr

namespace Preset

def presets : List Preset := [.recommended, .strict, .minimal, .all]

def name : Preset → String
  | .recommended => "recommended"
  | .strict => "strict"
  | .minimal => "minimal"
  | .all => "all"

/-- The preset of a name, whatever the case of its ASCII letters. -/
def ofName? (text : String) : Option Preset :=
  presets.find? fun preset => preset.name.toList = text.toList.map Char.toLower

/-- What is wrong with a name that is no preset's. -/
def unknownMessage (text : String) : String := s!"unknown preset: {text}"

/-- The preset that a configuration names; `recommended` if it names none. -/
def ofConfig (config : Config) : Preset := (config.preset.bind ofName?).getD .recommended

/-- A warning if the configuration names no preset there is. -/
def warnings (config : Config) : List String :=
  (config.preset.filter fun text => (ofName? text).isNone).toList.map fun text =>
    "Unknown preset '" ++ text ++ "', using recommended"

/-- The rules of a preset under a configuration. -/
def rules (preset : Preset) (config : Config) : List Rule :=
  let unwrapExpect (settings : Rules.UnwrapExpect) := (settings.configure config).rule
  let docComment := (Rules.DocComment.configure {} config).rule
  match preset with
  | .recommended => [unwrapExpect {}, Rules.DebugMacro.rule, Rules.LengthComparison.rule,
      Rules.Placeholder.rule]
  | .strict => [unwrapExpect { allowInTests := false }, Rules.DebugMacro.rule,
      Rules.LengthComparison.rule, docComment, Rules.Placeholder.rule]
  | .minimal => [unwrapExpect { allowExpect := true }]
  | .all => [unwrapExpect {}, Rules.DebugMacro.rule, Rules.LengthComparison.rule, docComment,
      Rules.Placeholder.rule]

/-- The rule with a code or name, under a configuration. -/
def ruleOf? (key : String) (config : Config) : Option Rule :=
  (Preset.all.rules config).find? (·.descriptor.answersTo key)

end Preset

namespace Engine

/-- The engine for a configuration: the rules of its preset. -/
def ofConfig (config : Config) : Except CatalogError Engine := do
  let catalog ← Catalog.build ((Preset.ofConfig config).rules config)
  return { catalog, config }

end Engine

end Arborist
