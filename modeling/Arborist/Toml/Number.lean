import Arborist.Toml.Text
import Arborist.Toml.Value

/-!
# `Arborist.Toml.Number`: numbers of a configuration file

Digits may have single underscores between them. Integers are decimal, or hexadecimal, octal or
binary behind `0x`, `0o` and `0b`, and have to fit 64 bits. A number with fraction or exponent is
kept as its decimal text; one that rounds to infinity is refused if it is positive.
-/

set_option autoImplicit false

namespace Arborist.Toml

/-- The digits that follow a digit, without the underscores between them, and what comes next. -/
def moreDigits (base : Nat) : List Char → List Char × List Char
  | '_' :: c :: cs =>
    if (digit? base c).isSome then push c (moreDigits base cs) else ([], '_' :: c :: cs)
  | c :: cs => if (digit? base c).isSome then push c (moreDigits base cs) else ([], c :: cs)
  | [] => ([], [])

/-- One digit or more. -/
def digitRun? (base : Nat) : List Char → Option (List Char × List Char)
  | c :: cs => if (digit? base c).isSome then some (push c (moreDigits base cs)) else none
  | [] => none

/-- One decimal digit or more, without a leading zero. -/
def naturalRun? : List Char → Option (List Char × List Char)
  | '0' :: cs => some (['0'], cs)
  | cs => digitRun? 10 cs

/-- The number that digits stand for. -/
def numberOf (base : Nat) (digits : List Char) : Nat :=
  digits.foldl (fun n c => n * base + (digit? base c).getD 0) 0

/-- A sign: whether it is a minus, and what comes behind it. -/
def sign : List Char → Bool × List Char
  | '-' :: cs => (true, cs)
  | '+' :: cs => (false, cs)
  | cs => (false, cs)

/-- A 64-bit integer. -/
def fit64? (value : Int) : Option Value :=
  if -(Int.pow 2 63) ≤ value ∧ value < Int.pow 2 63 then some (.integer value) else none

/-- An integer in another base, behind its two characters of introduction. -/
def basedInteger? (base : Nat) (cs : List Char) : Option (Value × List Char) := do
  let (digits, rest) ← digitRun? base cs
  return (← fit64? (numberOf base digits), rest)

/-- An integer. -/
def integer? : List Char → Option (Value × List Char)
  | '0' :: 'x' :: cs => basedInteger? 16 cs
  | '0' :: 'o' :: cs => basedInteger? 8 cs
  | '0' :: 'b' :: cs => basedInteger? 2 cs
  | cs => do
    let (negative, unsigned) := sign cs
    let (digits, rest) ← naturalRun? unsigned
    let size : Int := numberOf 10 digits
    return (← fit64? (if negative then -size else size), rest)

/-- The exponent of a number, from its letter on. -/
def exponent? : List Char → Option (Int × List Char)
  | c :: cs =>
    if c = 'e' ∨ c = 'E' then do
      let (negative, unsigned) := sign cs
      let (digits, rest) ← digitRun? 10 unsigned
      let size : Int := numberOf 10 digits
      return (if negative then -size else size, rest)
    else none
  | [] => none

/-- The fraction of a number, from its point on. -/
def fraction? : List Char → Option (List Char × List Char)
  | '.' :: cs => digitRun? 10 cs
  | _ => none

/-- The smallest number that a double rounds to infinity: halfway behind the largest double. -/
def infinityBound : Nat := Nat.pow 2 1024 - Nat.pow 2 970

/-- `mantissa * 10 ^ exponent` rounds to infinity as a double. Numbers of fewer than 309 digits do
not, numbers of more than 310 digits do. -/
def roundsToInfinity (mantissa : Nat) (exponent : Int) : Bool :=
  let digits : Int := (toString mantissa).length
  if mantissa = 0 ∨ digits + exponent < 309 then false
  else if 310 < digits + exponent then true
  else match exponent with
    | .ofNat e => infinityBound ≤ mantissa * Nat.pow 10 e
    | .negSucc e => infinityBound * Nat.pow 10 (e + 1) ≤ mantissa

/-- The decimal text of a number with the given digits. -/
def decimalText (negative : Bool) (whole fraction : List Char) (exponent : Option Int) : String :=
  let point := if fraction.isEmpty then [] else '.' :: fraction
  let power := match exponent with
    | some e => "e" ++ toString e
    | none => ""
  (if negative then "-" else "") ++ String.ofList (whole ++ point) ++ power

/-- A number with a fraction, an exponent or both. -/
def decimal? (cs : List Char) : Option (Value × List Char) := do
  let (negative, unsigned) := sign cs
  let (whole, rest) ← naturalRun? unsigned
  let (fraction, rest) := (fraction? rest).getD ([], rest)
  let (exponent, rest) := match exponent? rest with
    | some (e, rest) => (some e, rest)
    | none => (none, rest)
  if fraction.isEmpty && exponent.isNone then none
  else
    let infinite := roundsToInfinity (numberOf 10 (whole ++ fraction))
      (exponent.getD 0 - fraction.length)
    if infinite then if negative then some (.float none, rest) else none
    else some (.float (some (decimalText negative whole fraction exponent)), rest)

/-- Infinity or not-a-number, with or without a sign. -/
def special? (cs : List Char) : Option (Value × List Char) :=
  match (sign cs).2 with
  | 'i' :: 'n' :: 'f' :: rest => some (.float none, rest)
  | 'n' :: 'a' :: 'n' :: rest => some (.float none, rest)
  | _ => none

end Arborist.Toml
