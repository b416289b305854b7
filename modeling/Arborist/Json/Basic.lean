/-!
# `Arborist.Json.Basic`: JSON values

A value keeps what its text says: members of an object in order, with repeated names, and a
number either as an integer or as the decimal it was written as. A number is an integer only
without fraction and exponent, and only inside the 64-bit ranges; `-0` is a decimal.

`Json.fields?` reads a record the way every record of this library is read: as an object whose
known members occur at most once, or as an array of the members in their declared order.
-/

set_option autoImplicit false

namespace Arborist

/-- A JSON value. -/
inductive Json where
  | null
  | bool (value : Bool)
  | int (value : Int)
  /-- A number that is no 64-bit integer, as its text. -/
  | decimal (text : String)
  | string (value : String)
  | array (elements : List Json)
  | object (members : List (String × Json))
  deriving Repr, Inhabited

namespace Json

/-- A natural number as a value. -/
def ofNat (n : Nat) : Json := .int n

/-- A value, or `null` for none. -/
def ofOption {α : Type} (encode : α → Json) : Option α → Json
  | none => .null
  | some a => encode a

/-- The values of a list, in order. -/
def ofList {α : Type} (encode : α → Json) (values : List α) : Json := .array (values.map encode)

/-- The members called `name`. -/
def valuesOf (name : String) (members : List (String × Json)) : List Json :=
  members.filterMap fun member => if member.1 = name then some member.2 else none

/-- The first member called `name`, if this is an object that has one. -/
def member? (name : String) : Json → Option Json
  | .object members => (valuesOf name members).head?
  | _ => none

def asString? : Json → Option String
  | .string value => some value
  | _ => none

def asBool? : Json → Option Bool
  | .bool value => some value
  | _ => none

def asInt? : Json → Option Int
  | .int value => some value
  | _ => none

def asArray? : Json → Option (List Json)
  | .array elements => some elements
  | _ => none

/-- A natural number below `bound`. -/
def asNatBelow? (bound : Nat) : Json → Option Nat
  | .int (.ofNat n) => if n < bound then some n else none
  | _ => none

/-- An offset, a count or any other 64-bit natural number. -/
def asNat? (j : Json) : Option Nat := j.asNatBelow? (Nat.pow 2 64)

/-- `null` as none, anything else as `decode` says. -/
def asOption? {α : Type} (decode : Json → Option α) : Json → Option (Option α)
  | .null => some none
  | j => (decode j).map some

/-- An array all of whose elements decode. -/
def asListOf? {α : Type} (decode : Json → Option α) : Json → Option (List α)
  | .array elements => elements.mapM decode
  | _ => none

/-- The name of a constant: a string, or an object with that one name and `null`. -/
def asConstant? : Json → Option String
  | .string value => some value
  | .object [(name, .null)] => some name
  | _ => none

/-- The member called `name`, if it is there; refused when it occurs twice. -/
def field? (members : List (String × Json)) (name : String) : Option (Option Json) :=
  match valuesOf name members with
  | [] => some none
  | [value] => some (some value)
  | _ => none

/-- The members of a record with the given names, in their order. Unknown members of an object are
ignored. An array may be shorter than the record, never longer. -/
def fields? (names : List String) : Json → Option (List (Option Json))
  | .object members => names.mapM (field? members)
  | .array elements =>
    if elements.length ≤ names.length then
      some (elements.map some ++ List.replicate (names.length - elements.length) none)
    else none
  | _ => none

/-- A member that has to be there. -/
def required {α : Type} (decode : Json → Option α) : Option Json → Option α
  | some j => decode j
  | none => none

/-- A member that takes `fallback` when it is absent. -/
def withDefault {α : Type} (fallback : α) (decode : Json → Option α) : Option Json → Option α
  | some j => decode j
  | none => some fallback

end Json

end Arborist
