import Arborist.Batch
import Arborist.Command.ConfigLookup
import Arborist.Command.Output
import Arborist.Discovery
import Arborist.Rules.Preset

/-!
# `Arborist.Command.Check`: checking files

A check goes through four stages: the configuration is found and read, the rules are chosen and put
into a catalog, the files are looked for, and the batch is analyzed. The first three can fail, and a
check that fails there analyzes nothing (`CheckError`).

`CheckOptions.run` puts the stages together. The status of a run is 1 if a diagnostic is at least as
severe as the configured threshold, or if a file could not be analyzed. Fixed files are written only
after the whole batch is done.
-/

set_option autoImplicit false

namespace Arborist

/-- Why a check cannot start. -/
inductive CheckError where
  | config (path : String)
  | catalog
  | discovery (error : DiscoveryError)
  deriving DecidableEq, Repr

namespace CheckError

def message : CheckError → String
  | .config path => "Failed to load config: " ++ path
  | .catalog => "Invalid rule catalog"
  | .discovery error => error.message

end CheckError

namespace CheckOptions

/-- The rules to run: those that are named, or those of the preset. Unknown names are skipped. -/
def rulesToRun (options : CheckOptions) (config : Config) : List Rule :=
  match options.rules with
  | none => (Preset.ofConfig config).rules config
  | some names =>
    (Text.splitAll ',' names.toList).filterMap fun name =>
      Preset.ruleOf? (String.ofList (Text.trim name)) config

/-- The directory that paths are shown relative to: that of a single file, or the checked one. -/
def root (options : CheckOptions) (files : Snapshot) : String :=
  if files.isFile options.path then (Path.parent? options.path).getD "." else options.path

/-- The files to check. -/
def targets (options : CheckOptions) (files : Snapshot) (config : Config) :
    Except DiscoveryError (List String) :=
  if files.isFile options.path then .ok [options.path]
  else files.discover options.path (config.analyzer.exclude ++ options.exclude)
    config.analyzer.respectGitignore

/-- Analyzes the files to check. -/
def analyze (options : CheckOptions) (files : Snapshot) (config : Config) :
    Except CheckError BatchResult := do
  let catalog ← (Catalog.build (options.rulesToRun config)).mapError fun _ => .catalog
  let engine : Engine := { catalog, config }
  let paths ← (options.targets files config).mapError .discovery
  let fix := if options.fix then some options.riskyFixes else none
  return engine.analyzeBatch (options.root files)
    (fun path => (files.read path).mapError (·.message)) fix (fun _ => true) paths

end CheckOptions

namespace BatchResult

/-- The files that were fixed: their paths below `root` and new texts, and the number of fixes in
each. -/
def fixedFiles (r : BatchResult) (root : String) : List ((String × String) × Nat) :=
  r.reports.filterMap fun report => do
    let outcome ← report.fix
    let fixed ← outcome.fixed
    return ((Path.join root report.path, fixed), outcome.applied)

end BatchResult

namespace CheckOptions

/-- Runs a check. It fails if some diagnostic is severe enough or some file could not be
analyzed. -/
def run (options : CheckOptions) (env : Environment) (given : Option String) : Outcome :=
  let result : Except CheckError Outcome := do
    let config ← (env.loadConfig options.path given).mapError .config
    let result ← options.analyze env.files config
    let root := options.root env.files
    let fixed := result.fixedFiles root
    let applied := (fixed.map (·.2)).foldr (· + ·) 0
    let failed := result.hasViolationsAt config.failThreshold || !result.failures.isEmpty
    return {
      status := if failed then 1 else 0
      output := result.render options.format root env.files ++
        if options.fix then s!"Applied {applied} fix(es) in {fixed.length} file(s)\n" else ""
      errors := result.errorLines options.format
      writes := fixed.map (·.1) }
  match result with
  | .ok outcome => outcome
  | .error error => .failed error.message

end CheckOptions

end Arborist
