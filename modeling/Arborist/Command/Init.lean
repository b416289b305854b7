import Arborist.Command.Outcome

/-!
# `Arborist.Command.Init`: writing a first configuration file

The file that is written has every setting of the analyzer, with its default, and tables for a few
rules. A file that is there already is left alone unless the user insists.
-/

set_option autoImplicit false

namespace Arborist.Init

/-- The name of the file that is written. -/
def fileName : String := "treelint.toml"

/-- The lines of a first configuration file. -/
def configLines : List String :=
  ["# treelint configuration",
   "",
   "# Rule preset: recommended | strict | minimal | all",
   "preset = \"recommended\"",
   "",
   "# Lowest severity that fails `treelint check`: info | warning | error",
   "fail_on = \"error\"",
   "",
   "[analyzer]",
   "# Glob patterns to exclude from analysis",
   "exclude = [",
   "    \"**/target/**\",",
   "    \"**/vendor/**\",",
   "    \"**/generated/**\",",
   "]",
   "",
   "# Respect .gitignore files",
   "respect_gitignore = true",
   "",
   "# Worker threads (default: one per core)",
   "# parallelism = 4",
   "",
   "# Bytes a fix may reach past its diagnostic",
   "fix_slack = 2",
   "",
   "# Apply fixes marked unsafe with --fix",
   "unsafe_fixes = false",
   "",
   "# Rule configurations, keyed by name or code.",
   "# Each rule can be enabled/disabled and have its severity overridden.",
   "",
   "[rules.no-unwrap-expect]",
   "enabled = true",
   "# severity = \"warning\"",
   "allow_in_tests = true",
   "allow_expect = false",
   "",
   "[rules.no-debug-macro]",
   "enabled = true",
   "",
   "# [rules.require-doc-comments]",
   "# enabled = true",
   "# require_enum_docs = false"]

/-- The text of a first configuration file. -/
def configText : String := String.join (configLines.map (· ++ "\n"))

/-- What is said after the file was written. -/
def nextSteps : String :=
  s!"Created {fileName}\n\nNext steps:\n  1. Edit {fileName} to configure rules\n" ++
    "  2. Run: treelint check\n"

/-- Writes the file; one that is there already is only replaced by force. -/
def run (env : Environment) (force : Bool) : Outcome :=
  if env.files.pathExists fileName && !force then
    .failed s!"Configuration file already exists at {fileName}. Use --force to overwrite."
  else match env.files.write fileName configText with
    | .error _ => .failed s!"Failed to write {fileName}"
    | .ok _ => { output := nextSteps, writes := [(fileName, configText)] }

end Arborist.Init
