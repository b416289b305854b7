import Arborist.Command.Outcome
import Arborist.Config.Reader

/-!
# `Arborist.Command.ConfigLookup`: where the configuration comes from

A path on the command line comes first. Otherwise the nearest configuration file is taken, from the
checked directory outwards, and then the global one. Without any of them the defaults hold.
-/

set_option autoImplicit false

namespace Arborist

/-- The names of configuration files, in the order in which they are tried. -/
def configNames : List String := ["treelint.toml", ".treelint.toml"]

/-- The name of the configuration file in the global directory. -/
def globalConfigName : String := "config.toml"

namespace Environment

/-- The directory of the global configuration. -/
def globalDirectory? (env : Environment) : Option String :=
  env.configDirectory.orElse fun _ => env.home.map (Path.join · ".treelint")

/-- The directory that the search for a configuration file starts from. -/
def searchStart (env : Environment) (target : String) : String :=
  if env.files.isFile target then (Path.parent? target).getD target else target

/-- The nearest configuration file around a target. -/
def projectConfig? (env : Environment) (target : String) : Option String :=
  (Path.ancestors (env.searchStart target)).findSome? fun directory =>
    (configNames.map (Path.join directory)).find? env.files.isFile

/-- The path of the configuration file for a target; `given` is the path on the command line. -/
def configFile? (env : Environment) (target : String) (given : Option String) : Option String :=
  given
    |>.orElse (fun _ => env.projectConfig? target)
    |>.orElse fun _ =>
      (env.globalDirectory?.map (Path.join · globalConfigName)).filter env.files.isFile

/-- The configuration for a target; the error is the path of the file that cannot be used. -/
def loadConfig (env : Environment) (target : String) (given : Option String) :
    Except String Config :=
  match env.configFile? target given with
  | none => .ok {}
  | some path =>
    match env.files.read path with
    | .error _ => .error path
    | .ok text =>
      match Config.parse text with
      | .error _ => .error path
      | .ok (config, _) => .ok config

end Environment

end Arborist
