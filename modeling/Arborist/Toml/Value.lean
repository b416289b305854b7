import Arborist.Json.Basic

/-!
# `Arborist.Toml.Value`: values of a configuration file

A document is a table of values. Tables keep their entries in the order of their keys, so that two
documents with the same content are the same value. Numbers with a fraction stay decimal text.
-/

set_option autoImplicit false

namespace Arborist.Toml

/-- A value of a TOML document. -/
inductive Value where
  | string (text : String)
  | integer (value : Int)
  /-- A number with fraction or exponent, as decimal text; none for infinity and not-a-number. -/
  | float (decimal : Option String)
  | boolean (value : Bool)
  /-- A date, a time or both, in its canonical spelling. -/
  | dateTime (text : String)
  | array (elements : List Value)
  /-- A table, its entries in the order of their keys. -/
  | table (entries : List (String × Value))
  deriving Repr, Inhabited

namespace Value

def asString? : Value → Option String
  | .string text => some text
  | _ => none

def asBool? : Value → Option Bool
  | .boolean value => some value
  | _ => none

/-- A count or an offset: a 64-bit natural number. -/
def asNat? : Value → Option Nat
  | .integer (.ofNat n) => if n < Nat.pow 2 64 then some n else none
  | _ => none

def asArray? : Value → Option (List Value)
  | .array elements => some elements
  | _ => none

def asTable? : Value → Option (List (String × Value))
  | .table entries => some entries
  | _ => none

/-- The value of a key in a table. -/
def entry? (entries : List (String × Value)) (key : String) : Option Value :=
  (entries.find? (·.1 = key)).map (·.2)

/-- The entries of a table in the order of their keys. -/
def sortEntries {α : Type} (entries : List (String × α)) : List (String × α) :=
  entries.mergeSort fun a b => decide (a.1 ≤ b.1)

mutual

/-- The value as JSON; dates and times become their text. -/
def toJson : Value → Json
  | .string text => .string text
  | .integer value => .int value
  | .float (some decimal) => .decimal decimal
  | .float none => .null
  | .boolean value => .bool value
  | .dateTime text => .string text
  | .array elements => .array (elementsToJson elements)
  | .table entries => .object (entriesToJson entries)

def elementsToJson : List Value → List Json
  | [] => []
  | value :: rest => value.toJson :: elementsToJson rest

def entriesToJson : List (String × Value) → List (String × Json)
  | [] => []
  | (key, value) :: rest => (key, value.toJson) :: entriesToJson rest

end

end Value

end Arborist.Toml
