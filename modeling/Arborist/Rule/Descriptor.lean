import Arborist.Severity
import Arborist.SourceFile

/-!
# `Arborist.Rule.Descriptor`: what is known of a rule without running it

The message of a rule is a template: a name in braces stands for a value given at report time. A
name without a value stays as it is written.
-/

set_option autoImplicit false

namespace Arborist

/-- How much a violation matters. -/
inductive Impact where
  | low
  | medium
  | high
  | critical
  deriving DecidableEq, Repr

namespace Impact

def all : List Impact := [.low, .medium, .high, .critical]

def name : Impact → String
  | .low => "low"
  | .medium => "medium"
  | .high => "high"
  | .critical => "critical"

end Impact

/-- How much work it is to mend a violation. -/
inductive Cost where
  | low
  | medium
  | high
  deriving DecidableEq, Repr

namespace Cost

def all : List Cost := [.low, .medium, .high]

def name : Cost → String
  | .low => "low"
  | .medium => "medium"
  | .high => "high"

end Cost

/-- The categories of files that a rule runs on. -/
inductive Applicability where
  | all
  | only (categories : List FileCategory)
  | except (categories : List FileCategory)
  deriving DecidableEq, Repr

namespace Applicability

/-- The rule runs on files of this category. -/
def accepts : Applicability → FileCategory → Bool
  | .all, _ => true
  | .only categories, c => categories.contains c
  | .except categories, c => !categories.contains c

/-- The accepted categories with commas between them, or `all`. -/
def render (a : Applicability) : String :=
  let accepted := FileCategory.all.filter a.accepts
  if accepted.length = FileCategory.all.length then "all"
  else String.intercalate "," (accepted.map FileCategory.name)

end Applicability

/-- A message with names in braces. -/
abbrev Template := String

namespace Template

/-- The value for a name: that of the first pair with it. -/
def valueOf? (values : List (String × String)) (key : List Char) : Option String :=
  (values.find? fun pair => pair.1.toList = key).map (·.2)

/-- Fills in the template from `cs` on. `key` holds the characters behind the last opening brace,
last one first, while its closing brace is looked for; an opening brace there belongs to the
name. -/
def fillFrom (values : List (String × String)) : (key : Option (List Char)) → List Char → List Char
  | none, [] => []
  | some key, [] => '\x7b' :: key.reverse
  | none, c :: cs =>
    if c = '\x7b' then fillFrom values (some []) cs else c :: fillFrom values none cs
  | some key, c :: cs =>
    if c = '\x7d' then
      (match valueOf? values key.reverse with
        | some value => value.toList
        | none => '\x7b' :: key.reverse ++ ['\x7d']) ++ fillFrom values none cs
    else fillFrom values (some (c :: key)) cs

/-- The message with the values in place of their names. -/
def fill (template : Template) (values : List (String × String)) : String :=
  String.ofList (fillFrom values none template.toList)

/-- Braces come in pairs that do not nest; `inside` says that one is open. -/
def balancedFrom (inside : Bool) : List Char → Bool
  | [] => !inside
  | c :: cs =>
    if c = '\x7b' then !inside && balancedFrom true cs
    else if c = '\x7d' then inside && balancedFrom false cs
    else balancedFrom inside cs

/-- Braces come in pairs that do not nest. -/
def isBalanced (template : Template) : Bool := balancedFrom false template.toList

end Template

/-- What is known of a rule without running it. -/
structure Descriptor where
  code : String
  name : String
  description : String := ""
  message : Template
  severity : Severity := .warning
  impact : Impact := .medium
  cost : Cost := .low
  applicability : Applicability := .all
  deriving DecidableEq, Repr

namespace Descriptor

/-- `key` is the code or the name of the rule. -/
def answersTo (d : Descriptor) (key : String) : Bool := d.code = key || d.name = key

end Descriptor

end Arborist
