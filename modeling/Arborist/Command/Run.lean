import Arborist.Command.Check
import Arborist.Command.Init
import Arborist.Command.RuleList

/-!
# `Arborist.Command.Run`: a run of the program

A run reads its arguments and carries out one command. Arguments that cannot be read, and those that
ask for help or for the version, end the run before any command (`EarlyEnd`).
-/

set_option autoImplicit false

namespace Arborist

/-- The name and version of the program. -/
def versionLine : String := "treelint 0.1.0\n"

/-- How to call the program. -/
def helpText : String :=
  String.join <| [
    "Single-pass lint engine for Rust sources", "",
    "Usage: treelint [OPTIONS] <COMMAND>", "",
    "Commands:",
    "  check       Run lint checks",
    "  list-rules  List available rules",
    "  init        Initialize configuration file",
    "  help        Print this message or the help of the given subcommand(s)", "",
    "Options:",
    "  -v, --verbose          Enable verbose output",
    "  -c, --config <CONFIG>  Path to configuration file [env: TREELINT_CONFIG=]",
    "  -h, --help             Print help",
    "  -V, --version          Print version"].map (· ++ "\n")

namespace EarlyEnd

/-- The end of a run that comes before any command. -/
def outcome : EarlyEnd → Outcome
  | .usageError => .usageError
  | .help => { output := helpText }
  | .version => { output := versionLine }

end EarlyEnd

namespace Invocation

/-- Runs a command. -/
def run (invocation : Invocation) (env : Environment) : Outcome :=
  match invocation.command with
  | .check options => options.run env invocation.config
  | .listRules => { output := RuleList.text }
  | .init force => Init.run env force

end Invocation

/-- Runs the program with the given arguments. -/
def runProgram (env : Environment) (arguments : List String) : Outcome :=
  match Invocation.parse env.config arguments with
  | .ok invocation => invocation.run env
  | .error early => early.outcome

end Arborist
