import Arborist.Text.WhiteSpace

/-!
# `Arborist.Command.Options`: options on a command line

One level of a command line has options and words. An option is given by a long name or a letter,
flags can share one dash, and a value stands behind an equals sign, directly behind the letter or in
the next argument. Arguments are read from left to right, and the first fault or request for help
ends the reading.
-/

set_option autoImplicit false

namespace Arborist

/-- Why the reading of a command line ends early. -/
inductive EarlyEnd where
  | usageError
  | help
  | version
  deriving DecidableEq, Repr

/-- What an option is for. -/
inductive OptionKind where
  /-- Without a value, at most once. -/
  | flag
  /-- With a value, at most once. -/
  | value
  /-- With a value, any number of times. -/
  | values
  | help
  | version
  deriving DecidableEq, Repr

/-- An option of a command. -/
structure OptionForm where
  name : String
  letter : Option Char := none
  kind : OptionKind := .flag
  /-- The values that can be read. -/
  admits : String → Bool := fun _ => true

namespace OptionForm

def takesValue (form : OptionForm) : Bool := form.kind = .value || form.kind = .values

end OptionForm

/-- The options and words of one level so far, in the order given. -/
structure ArgumentLevel where
  options : List (String × String) := []
  words : List String := []
  deriving DecidableEq, Repr

namespace ArgumentLevel

def has (level : ArgumentLevel) (name : String) : Bool := level.options.any (·.1 = name)

/-- The values of an option. -/
def valuesOf (level : ArgumentLevel) (name : String) : List String :=
  (level.options.filter (·.1 = name)).map (·.2)

def valueOf? (level : ArgumentLevel) (name : String) : Option String := (level.valuesOf name).head?

/-- Adds an option. -/
def add (level : ArgumentLevel) (form : OptionForm) (value : String) :
    Except EarlyEnd ArgumentLevel :=
  match form.kind with
  | .help => .error .help
  | .version => .error .version
  | kind =>
    if level.has form.name && kind ≠ .values || !form.admits value then .error .usageError
    else .ok { level with options := level.options ++ [(form.name, value)] }

end ArgumentLevel

/-- What one argument is. -/
inductive Argument where
  /-- Two dashes: only words follow. -/
  | divider
  /-- The name of an option behind two dashes, and the value behind an equals sign. -/
  | long (name : List Char) (value : Option (List Char))
  /-- Letters behind one dash. -/
  | letters (cs : List Char)
  | word
  deriving DecidableEq, Repr

namespace Argument

/-- What an argument is by its beginning; a lone dash is a word. -/
def ofText (text : String) : Argument :=
  match text.toList with
  | ['-', '-'] => .divider
  | '-' :: '-' :: cs =>
    match Text.splitFirst? '=' cs with
    | some (name, value) => .long name (some value)
    | none => .long cs none
  | '-' :: c :: cs => .letters (c :: cs)
  | _ => .word

end Argument

/-- The options of one level, and how many words it takes before it ends. -/
structure LevelForm where
  options : List OptionForm
  /-- The most words that are taken; one more is a fault. -/
  maxWords : Nat := 0
  /-- The words that can be read. -/
  admitsWord : String → Bool := fun _ => true
  /-- The first word ends the level. -/
  endsAtWord : Bool := false

namespace LevelForm

def long? (form : LevelForm) (name : List Char) : Option OptionForm :=
  form.options.find? (·.name.toList = name)

def letter? (form : LevelForm) (c : Char) : Option OptionForm :=
  form.options.find? (·.letter = some c)

/-- Reads letters behind one dash. An option with a value takes the letters behind it as its value;
if there are none, it waits for the next argument. -/
def readLetters (form : LevelForm) :
    ArgumentLevel → List Char → Except EarlyEnd (ArgumentLevel × Option OptionForm)
  | level, [] => .ok (level, none)
  | level, c :: cs =>
    match form.letter? c with
    | none => .error .usageError
    | some option =>
      if option.takesValue then
        if cs.isEmpty then .ok (level, some option)
        else do
          let value := (Text.dropStart? ['='] cs).getD cs
          return (← level.add option (String.ofList value), none)
      else do form.readLetters (← level.add option "") cs

/-- Reads an option with a long name. -/
def readLong (form : LevelForm) (level : ArgumentLevel) (name : List Char)
    (value : Option (List Char)) : Except EarlyEnd (ArgumentLevel × Option OptionForm) :=
  match form.long? name with
  | none => .error .usageError
  | some option =>
    match option.takesValue, value with
    | true, some value => do return (← level.add option (String.ofList value), none)
    | true, none => .ok (level, some option)
    | false, none => do return (← level.add option "", none)
    | false, some _ => .error .usageError

/-- Adds a word. -/
def addWord (form : LevelForm) (level : ArgumentLevel) (word : String) :
    Except EarlyEnd ArgumentLevel :=
  if level.words.length < form.maxWords && form.admitsWord word then
    .ok { level with words := level.words ++ [word] }
  else .error .usageError

/-- Reads the arguments of a level, and gives those from the word on that ends it. `pending` is the
option that waits for its value, and `onlyWords` says that no more options follow. -/
def readFrom (form : LevelForm) : (pending : Option OptionForm) → (onlyWords : Bool) →
    ArgumentLevel → List String → Except EarlyEnd (ArgumentLevel × List String)
  | none, _, level, [] => .ok (level, [])
  | some _, _, _, [] => .error .usageError
  | some option, onlyWords, level, argument :: rest =>
    match Argument.ofText argument with
    | .word => do form.readFrom none onlyWords (← level.add option argument) rest
    | _ => .error .usageError
  | none, true, level, argument :: rest => do
    form.readFrom none true (← form.addWord level argument) rest
  | none, false, level, argument :: rest =>
    match Argument.ofText argument with
    | .divider => form.readFrom none true level rest
    | .long name value => do
      let (level, pending) ← form.readLong level name value
      form.readFrom pending false level rest
    | .letters cs => do
      let (level, pending) ← form.readLetters level cs
      form.readFrom pending false level rest
    | .word =>
      if form.endsAtWord then .ok (level, argument :: rest)
      else do form.readFrom none false (← form.addWord level argument) rest

/-- Reads the arguments of a level. -/
def read (form : LevelForm) (arguments : List String) :
    Except EarlyEnd (ArgumentLevel × List String) :=
  form.readFrom none false {} arguments

end LevelForm

end Arborist
