import Arborist.FileSystem

/-!
# `Arborist.Command.Outcome`: what a run reads and what it leaves behind

A run reads an environment and ends in an outcome. It changes no file by itself: the outcome lists
the files to write.
-/

set_option autoImplicit false

namespace Arborist

/-- What a run can see. -/
structure Environment where
  files : Snapshot
  /-- The home directory. -/
  home : Option String := none
  /-- The configuration file that the environment names. -/
  config : Option String := none
  /-- The directory of the global configuration, if the environment names one. -/
  configDirectory : Option String := none
  deriving Repr

/-- The end of a run. -/
structure Outcome where
  /-- The exit code. -/
  status : Nat := 0
  /-- The text for standard output. -/
  output : String := ""
  /-- The lines for standard error. -/
  errors : List String := []
  /-- The files to write, with their new texts. -/
  writes : List (String × String) := []
  deriving DecidableEq, Repr

namespace Outcome

/-- The run ends with an error. -/
def failed (message : String) : Outcome := { status := 1, errors := ["Error: " ++ message] }

/-- The command line cannot be read. -/
def usageError : Outcome := { status := 2 }

end Outcome

end Arborist
