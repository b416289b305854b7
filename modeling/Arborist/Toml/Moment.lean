import Arborist.Toml.Text
import Arborist.Toml.Value

/-!
# `Arborist.Toml.Moment`: dates and times of a configuration file

A value is a date, a time of day, or both with or without an offset. It is kept in one spelling: `T`
between date and time, `Z` or a signed offset, and a fraction of at most nine digits that does not
end in a zero.
-/

set_option autoImplicit false

namespace Arborist.Toml

/-- A number of exactly `count` decimal digits. -/
def fixedDigits? : (count : Nat) → List Char → Option (List Char × List Char)
  | 0, cs => some ([], cs)
  | _ + 1, [] => none
  | count + 1, c :: cs =>
    if (digit? 10 c).isSome then (fixedDigits? count cs).map (push c) else none

/-- Two digits with a value between `least` and `most`. -/
def twoDigits? (least most : Nat) (cs : List Char) : Option (List Char × List Char) :=
  (fixedDigits? 2 cs).filter fun (digits, _) =>
    let value := digits.foldl (fun n c => n * 10 + (digit? 10 c).getD 0) 0
    least ≤ value && value ≤ most

/-- What comes behind a given character. -/
def expect? (c : Char) : List Char → Option (List Char)
  | [] => none
  | d :: cs => if d = c then some cs else none

/-- Number of days of a month; the year decides about the second month. -/
def daysIn (year month : Nat) : Nat :=
  if month = 2 then if year % 4 = 0 ∧ (year % 100 ≠ 0 ∨ year % 400 = 0) then 29 else 28
  else if month = 4 ∨ month = 6 ∨ month = 9 ∨ month = 11 then 30
  else 31

/-- The number that decimal digits stand for. -/
def decimalOf (digits : List Char) : Nat :=
  digits.foldl (fun n c => n * 10 + (digit? 10 c).getD 0) 0

/-- A date: year, month and day. -/
def date? (cs : List Char) : Option (List Char × List Char) := do
  let (year, rest) ← fixedDigits? 4 cs
  let (month, rest) ← twoDigits? 1 12 (← expect? '-' rest)
  let (day, rest) ← twoDigits? 1 (daysIn (decimalOf year) (decimalOf month)) (← expect? '-' rest)
  return (year ++ '-' :: month ++ '-' :: day, rest)

/-- A fraction of a second, from its point on, in its shortest spelling. -/
def secondFraction (cs : List Char) : List Char × List Char :=
  match cs with
  | '.' :: c :: rest =>
    if (digit? 10 c).isSome then
      let digits := (c :: rest).takeWhile fun c => (digit? 10 c).isSome
      let kept := ((digits.take 9).reverse.dropWhile (· == '0')).reverse
      (if kept.isEmpty then [] else '.' :: kept, (c :: rest).drop digits.length)
    else ([], cs)
  | _ => ([], cs)

/-- A time of day: hour, minute, second and fraction. -/
def time? (cs : List Char) : Option (List Char × List Char) := do
  let (hour, rest) ← twoDigits? 0 23 cs
  let (minute, rest) ← twoDigits? 0 59 (← expect? ':' rest)
  let (second, rest) ← twoDigits? 0 60 (← expect? ':' rest)
  let (fraction, rest) := secondFraction rest
  return (hour ++ ':' :: minute ++ ':' :: second ++ fraction, rest)

/-- An offset from universal time. -/
def offset? : List Char → Option (List Char × List Char)
  | c :: cs =>
    if c = 'Z' ∨ c = 'z' then some (['Z'], cs)
    else if c = '+' ∨ c = '-' then do
      let (hour, rest) ← twoDigits? 0 23 cs
      let (minute, rest) ← twoDigits? 0 59 (← expect? ':' rest)
      let zero := decimalOf (hour ++ minute) = 0
      return ((if zero then '+' else c) :: hour ++ ':' :: minute, rest)
    else none
  | [] => none

/-- The time behind a date, with an offset if there is one. -/
def timeOfDate? : List Char → Option (List Char × List Char)
  | c :: cs =>
    if c = 'T' ∨ c = 't' ∨ c = ' ' then do
      let (time, rest) ← time? cs
      let (offset, rest) := (offset? rest).getD ([], rest)
      return ('T' :: time ++ offset, rest)
    else none
  | [] => none

/-- A date, a time or both. -/
def moment? (cs : List Char) : Option (Value × List Char) :=
  let read := match date? cs with
    | some (date, rest) =>
      match timeOfDate? rest with
      | some (time, rest) => some (date ++ time, rest)
      | none => some (date, rest)
    | none => time? cs
  read.map fun (text, rest) => (.dateTime (String.ofList text), rest)

end Arborist.Toml
