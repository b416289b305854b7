import Arborist.Config.Basic
import Arborist.Diagnostic.Json

/-!
# `Arborist.Config.Json`: configurations as JSON

Every setting is written, also those that are unset: these become `null`. The options of a rule
stand in its table beside the settings that every rule has.
-/

set_option autoImplicit false

namespace Arborist

namespace AnalyzerConfig

def toJson (c : AnalyzerConfig) : Json :=
  .object [("root", .string c.root), ("exclude", .ofList .string c.exclude),
    ("respect_gitignore", .bool c.respectGitignore),
    ("parallelism", .ofOption .ofNat c.parallelism), ("fix_slack", .ofNat c.fixSlack),
    ("unsafe_fixes", .bool c.unsafeFixes)]

end AnalyzerConfig

namespace RuleConfig

/-- The table of a rule, with its options beside what every rule has. -/
def toJson (c : RuleConfig) : Json :=
  .object <| [("enabled", .ofOption .bool c.enabled),
    ("severity", .ofOption Severity.toJson c.severity)] ++ Toml.Value.entriesToJson c.options

end RuleConfig

namespace Config

def toJson (c : Config) : Json :=
  .object [("preset", .ofOption .string c.preset), ("fail_on", .ofOption Severity.toJson c.failOn),
    ("analyzer", c.analyzer.toJson),
    ("rules", .object (c.rules.map fun (key, table) => (key, table.toJson)))]

end Config

end Arborist
