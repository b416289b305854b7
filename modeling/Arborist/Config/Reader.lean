import Arborist.Config.Basic
import Arborist.Toml.Reader

/-!
# `Arborist.Config.Reader`: configurations from text

The entries of a table are read in the order of their keys, and the first one of the wrong shape is
the error, named by its path. An entry with an unknown key is no error; `unknownKeys` lists them for
a warning.
-/

set_option autoImplicit false

namespace Arborist

/-- Why a configuration cannot be used. -/
inductive ConfigError where
  | unreadable (path cause : String)
  /-- The text is no document. -/
  | malformed
  /-- The value at this path has the wrong shape. -/
  | misshapen (path : List String)
  deriving DecidableEq, Repr

namespace ConfigError

def message : ConfigError → String
  | .unreadable path cause => s!"Failed to read config file {path}: {cause}"
  | .malformed => "Failed to parse config: <syntax>"
  | .misshapen path =>
    "Failed to parse config: <schema> in `" ++ String.intercalate "." path ++ "`"

end ConfigError

/-- A value, or the path to what is wrong with it. -/
abbrev Shaped (α : Type) := Except (List String) α

namespace Shaped

/-- A value of the right shape, or an error right here. -/
def require {α : Type} (found : Option α) : Shaped α :=
  match found with
  | some a => .ok a
  | none => .error []

/-- Errors get the key in front of their path. -/
def under {α : Type} (key : String) (result : Shaped α) : Shaped α :=
  match result with
  | .ok a => .ok a
  | .error path => .error (key :: path)

end Shaped

namespace Severity

/-- A severity by its name, or as a table with that one key and nothing in it. -/
def ofToml? : Toml.Value → Option Severity
  | .string name => ofName? name
  | .table [(name, .table [])] => ofName? name
  | .table [(name, .array [])] => ofName? name
  | _ => none

end Severity

namespace AnalyzerConfig

/-- The keys of the analyzer's table, in the order in which an array can give their values. -/
def keys : List String :=
  ["root", "exclude", "respect_gitignore", "parallelism", "fix_slack", "unsafe_fixes"]

/-- Sets what a key stands for. -/
def set (c : AnalyzerConfig) (key : String) (value : Toml.Value) : Shaped AnalyzerConfig :=
  match key with
  | "root" => do return { c with root := ← Shaped.require value.asString? }
  | "exclude" => do
    let patterns ← Shaped.require (value.asArray?.bind (·.mapM Toml.Value.asString?))
    return { c with exclude := patterns }
  | "respect_gitignore" => do
    return { c with respectGitignore := ← Shaped.require value.asBool? }
  | "parallelism" => do return { c with parallelism := some (← Shaped.require value.asNat?) }
  | "fix_slack" => do return { c with fixSlack := ← Shaped.require value.asNat? }
  | "unsafe_fixes" => do return { c with unsafeFixes := ← Shaped.require value.asBool? }
  | _ => .ok c

/-- The analyzer's part of a configuration: a table, or an array of its values. -/
def ofToml : Toml.Value → Shaped AnalyzerConfig
  | .table entries =>
    entries.foldlM (fun c (key, value) => (c.set key value).under key) {}
  | .array values =>
    if keys.length < values.length then .error []
    else (keys.zip values).foldlM (fun c (key, value) => c.set key value) {}
  | _ => .error []

end AnalyzerConfig

namespace RuleConfig

/-- Sets what a key stands for; a key that means nothing to every rule is an option. -/
def set (c : RuleConfig) (key : String) (value : Toml.Value) : Shaped RuleConfig :=
  match key with
  | "enabled" => do return { c with enabled := some (← Shaped.require value.asBool?) }
  | "severity" => do
    return { c with severity := some (← Shaped.require (Severity.ofToml? value)) }
  | _ => .ok { c with options := c.options ++ [(key, value)] }

def ofToml : Toml.Value → Shaped RuleConfig
  | .table entries => entries.foldlM (fun c (key, value) => (c.set key value).under key) {}
  | _ => .error []

end RuleConfig

namespace Config

/-- The keys of a configuration. -/
def keys : List String := ["preset", "fail_on", "analyzer", "rules"]

/-- The tables of rules. -/
def rulesOfToml (value : Toml.Value) : Shaped (List (String × RuleConfig)) := do
  let entries ← Shaped.require value.asTable?
  entries.mapM fun (key, value) => return (key, ← (RuleConfig.ofToml value).under key)

/-- Sets what a key stands for. -/
def set (c : Config) (key : String) (value : Toml.Value) : Shaped Config :=
  match key with
  | "preset" => do return { c with preset := some (← Shaped.require value.asString?) }
  | "fail_on" => do return { c with failOn := some (← Shaped.require (Severity.ofToml? value)) }
  | "analyzer" => do return { c with analyzer := ← AnalyzerConfig.ofToml value }
  | "rules" => do return { c with rules := ← rulesOfToml value }
  | _ => .ok c

/-- The configuration with these entries. -/
def ofEntries (entries : List (String × Toml.Value)) : Except ConfigError Config :=
  let shaped : Shaped Config :=
    entries.foldlM (fun (c : Config) (key, value) => (c.set key value).under key) {}
  shaped.mapError .misshapen

/-- The keys that mean nothing, those of the analyzer behind its name. -/
def unknownKeys (entries : List (String × Toml.Value)) : List String :=
  let unknown (known : List String) (entries : List (String × Toml.Value)) :=
    (entries.map (·.1)).filter (!known.contains ·)
  unknown keys entries ++
    ((((Toml.Value.entry? entries "analyzer").bind Toml.Value.asTable?).map
      (unknown AnalyzerConfig.keys)).getD []).map ("analyzer." ++ ·)

/-- The configuration of a text, with warnings. -/
def parse (text : String) : Except ConfigError (Config × List String) := do
  match Toml.read? text with
  | none => .error .malformed
  | some entries =>
    let config ← ofEntries entries
    return (config,
      (unknownKeys entries).map fun key => "Ignoring unknown config key `" ++ key ++ "`")

end Config

end Arborist
