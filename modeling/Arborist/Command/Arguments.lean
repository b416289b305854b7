import Arborist.Command.Options

/-!
# `Arborist.Command.Arguments`: the command line of the program

The command line names a command behind the options that all commands share. Those can be given
before and behind the name of the command; behind it they count more.
-/

set_option autoImplicit false

namespace Arborist

/-- How results are printed. -/
inductive OutputFormat where
  | text
  | json
  | compact
  | pretty
  deriving DecidableEq, Repr

namespace OutputFormat

def all : List OutputFormat := [.text, .json, .compact, .pretty]

def name : OutputFormat → String
  | .text => "text"
  | .json => "json"
  | .compact => "compact"
  | .pretty => "pretty"

def ofName? (text : String) : Option OutputFormat := all.find? (·.name = text)

end OutputFormat

/-- What to check and how. -/
structure CheckOptions where
  path : String := "."
  format : OutputFormat := .text
  /-- The names or codes of the rules to run, with commas between them. -/
  rules : Option String := none
  /-- Patterns that exclude files. -/
  exclude : List String := []
  /-- Write fixed files back. -/
  fix : Bool := false
  /-- Also apply fixes that may change behaviour. -/
  riskyFixes : Bool := false
  /-- The number of workers. -/
  jobs : Option Nat := none
  deriving DecidableEq, Repr

/-- What the program is asked to do. -/
inductive Command where
  | check (options : CheckOptions)
  | listRules
  | init (force : Bool)
  deriving DecidableEq, Repr

/-- A command with the options that all commands share. -/
structure Invocation where
  command : Command
  /-- The path of the configuration file. -/
  config : Option String := none
  verbose : Bool := false
  deriving DecidableEq, Repr

/-- Reads a number of workers: digits, perhaps behind a plus sign, for less than `2 ^ 64`. -/
def readJobs? (text : String) : Option Nat :=
  let digits := (Text.dropStart? ['+'] text.toList).getD text.toList
  let number := digits.foldl (fun n c => n * 10 + (c.toNat - '0'.toNat)) 0
  if digits.isEmpty || !digits.all Char.isDigit || number ≥ Nat.pow 2 64 then none else some number

namespace Invocation

/-- The options that all commands share. -/
def sharedOptions : List OptionForm :=
  [{ name := "verbose", letter := some 'v' },
   { name := "config", letter := some 'c', kind := .value, admits := fun s => !s.isEmpty },
   { name := "help", letter := some 'h', kind := .help }]

/-- The level before the name of the command. -/
def programForm : LevelForm :=
  { options := { name := "version", letter := some 'V', kind := .version } :: sharedOptions
    endsAtWord := true }

def checkForm : LevelForm :=
  { options := sharedOptions ++ [
      { name := "format", letter := some 'f', kind := .value
        admits := fun s => (OutputFormat.ofName? s).isSome },
      { name := "rules", kind := .value },
      { name := "exclude", letter := some 'e', kind := .values },
      { name := "fix" },
      { name := "unsafe-fixes" },
      { name := "jobs", letter := some 'j', kind := .value,
        admits := fun s => (readJobs? s).isSome }]
    maxWords := 1
    admitsWord := fun s => !s.isEmpty }

def listRulesForm : LevelForm := { options := sharedOptions }

def initForm : LevelForm := { options := sharedOptions ++ [{ name := "force" }] }

/-- The options of a check, from the arguments of its level. -/
def checkOptions (level : ArgumentLevel) : CheckOptions :=
  { path := level.words.head?.getD "."
    format := ((level.valueOf? "format").bind OutputFormat.ofName?).getD .text
    rules := level.valueOf? "rules"
    exclude := level.valuesOf "exclude"
    fix := level.has "fix" || level.has "unsafe-fixes"
    riskyFixes := level.has "unsafe-fixes"
    jobs := (level.valueOf? "jobs").bind readJobs? }

/-- The form of a command's arguments, and the command that they make. -/
def commandOf? (name : String) : Option (LevelForm × (ArgumentLevel → Command)) :=
  if name = "check" then some (checkForm, fun level => .check (checkOptions level))
  else if name = "list-rules" then some (listRulesForm, fun _ => .listRules)
  else if name = "init" then some (initForm, fun level => .init (level.has "force"))
  else none

/-- What follows the word `help`: at most the name of a command. -/
def helpEnd : List String → EarlyEnd
  | [] => .help
  | [name] => if (commandOf? name).isSome || name = "help" then .help else .usageError
  | _ => .usageError

/-- The path of the configuration file. The environment gives it where the command line does not;
an empty one there is refused, unless both levels give a path of their own. -/
def configPath (environment : Option String) (outer inner : ArgumentLevel) :
    Except EarlyEnd (Option String) :=
  if environment = some "" && !(outer.has "config" && inner.has "config") then .error .usageError
  else .ok <| (inner.valueOf? "config")
    |>.orElse (fun _ => outer.valueOf? "config")
    |>.orElse (fun _ => environment)

/-- Reads a command line; `environment` is the configuration file that the environment names. -/
def parse (environment : Option String) (arguments : List String) : Except EarlyEnd Invocation := do
  let (outer, rest) ← programForm.read arguments
  match rest with
  | [] => .error .usageError
  | name :: rest =>
    if name = "help" then .error (helpEnd rest)
    match commandOf? name with
    | none => .error .usageError
    | some (form, command) =>
      let (inner, _) ← form.read rest
      let config ← configPath environment outer inner
      return {
        command := command inner
        config
        verbose := outer.has "verbose" || inner.has "verbose" }

end Invocation

end Arborist
