import Arborist.Text.Identifier

/-!
# `Arborist.Source.Literal`: how far a literal reaches

Each function answers how many characters ahead form a literal of its kind. Quoted literals are
read by a small automaton, `QuoteState.step?`, one character at a time, so that a literal is
well-formed exactly when the automaton stops at a closing quote. Any literal may carry a suffix,
which is an identifier written directly behind it.
-/

set_option autoImplicit false

namespace Arborist.Source

/-- Length of the identifier ahead, 0 if there is none. -/
def identifierLength : List Char → Nat
  | c :: rest =>
    if Text.isIdentifierStart c then (rest.takeWhile Text.isIdentifierContinue).length + 1 else 0
  | [] => 0

/-- `n` characters and the suffix behind them. -/
def withSuffix (cs : List Char) (n : Nat) : Nat := n + identifierLength (cs.drop n)

def isDigit (c : Char) : Bool := '0' ≤ c && c ≤ '9'

/-- The value of a hexadecimal digit. -/
def hexValue? (c : Char) : Option Nat :=
  if isDigit c then some (c.toNat - '0'.toNat)
  else if 'a' ≤ c && c ≤ 'f' then some (c.toNat - 'a'.toNat + 10)
  else if 'A' ≤ c && c ≤ 'F' then some (c.toNat - 'A'.toNat + 10)
  else none

/-- What may stand between quotes: any text, ASCII bytes, or text without a zero byte. -/
inductive Alphabet where
  | text
  | bytes
  | nonzero
  deriving DecidableEq, Repr

namespace Alphabet

/-- The character may stand in a literal as itself. -/
def admits : Alphabet → Char → Bool
  | .text, _ => true
  | .bytes, c => c.toNat < 128
  | .nonzero, c => c.toNat != 0

/-- The letter may follow a backslash and is the whole escape. -/
def escapes (a : Alphabet) (c : Char) : Bool :=
  c == 'n' || c == 'r' || c == 't' || c == '\\' || c == '\'' || c == '"' ||
    (c == '0' && a != .nonzero)

/-- The two digits of a byte escape form a value that the alphabet has. -/
def admitsByte (a : Alphabet) (high low : Nat) : Bool :=
  match a with
  | .text => high < 8
  | .bytes => true
  | .nonzero => !(high == 0 && low == 0)

end Alphabet

/-- Where in a quoted literal the automaton is. -/
inductive QuoteState where
  | body
  /-- After a carriage return, which has to be followed by a line feed. -/
  | returned
  | escape
  | byteHigh
  | byteLow (high : Nat)
  | codeOpen
  /-- Inside the braces of a code point escape, after `digits` digits. -/
  | code (digits value : Nat)
  /-- After a backslash at the end of a line: blanks are skipped. -/
  | continued
  | continuedReturn
  deriving DecidableEq, Repr

namespace QuoteState

/-- One character of the body; `none` in the result's first place ends the literal. -/
def bodyStep (a : Alphabet) (c : Char) : Option (Option QuoteState) :=
  if c == '"' then some none
  else if c == '\r' then some (some .returned)
  else if c == '\\' then some (some .escape)
  else if a.admits c then some (some .body)
  else none

/-- The code point with this value exists and the alphabet has it. -/
def admitsCode (a : Alphabet) (value : Nat) : Bool :=
  value.isValidChar && (a != .nonzero || value != 0)

/-- One character of a quoted literal: none if it may not stand there, `some none` if it ends the
literal, and otherwise the next state. -/
def step? (a : Alphabet) : QuoteState → Char → Option (Option QuoteState)
  | .body, c => bodyStep a c
  | .returned, c => if c == '\n' then some (some .body) else none
  | .escape, c =>
    if c == 'x' then some (some .byteHigh)
    else if c == 'u' && a != .bytes then some (some .codeOpen)
    else if a.escapes c then some (some .body)
    else if c == '\n' then some (some .continued)
    else if c == '\r' then some (some .continuedReturn)
    else none
  | .byteHigh, c => do
    let high ← hexValue? c
    if a != .text || high < 8 then some (some (.byteLow high)) else none
  | .byteLow high, c => do
    let low ← hexValue? c
    if a.admitsByte high low then some (some .body) else none
  | .codeOpen, c => if c == '\x7b' then some (some (.code 0 0)) else none
  | .code digits value, c =>
    match hexValue? c with
    | some digit =>
      if digits < 6 then some (some (.code (digits + 1) (value * 16 + digit))) else none
    | none =>
      if digits == 0 then none
      else if c == '_' then some (some (.code digits value))
      else if c == '\x7d' && admitsCode a value then some (some .body)
      else none
  | .continued, c =>
    if c == ' ' || c == '\t' || c == '\n' then some (some .continued)
    else if c == '\r' then some (some .continuedReturn)
    else bodyStep a c
  | .continuedReturn, c => if c == '\n' then some (some .continued) else none

/-- Number of characters up to and with the closing quote. -/
def run? (a : Alphabet) : QuoteState → List Char → Option Nat
  | _, [] => none
  | state, c :: rest =>
    match state.step? a c with
    | none => none
    | some none => some 1
    | some (some next) => (run? a next rest).map (· + 1)

end QuoteState

/-- Number of characters up to and with a quote that `hashes` hash signs follow. -/
def rawRest? (a : Alphabet) (hashes : Nat) : List Char → Option Nat
  | [] => none
  | '\r' :: '\n' :: rest => (rawRest? a hashes rest).map (· + 2)
  | c :: rest =>
    if c == '"' && rest.take hashes = List.replicate hashes '#' then some (1 + hashes)
    else if c == '\r' || !a.admits c then none
    else (rawRest? a hashes rest).map (· + 1)

/-- Length of a raw literal from behind its letters: hash signs, at most 255 of them, a quote, the
text, and a quote with as many hash signs. -/
def raw? (a : Alphabet) (cs : List Char) : Option Nat :=
  let hashes := (cs.takeWhile (· == '#')).length
  match cs.drop hashes with
  | '"' :: rest => if hashes ≤ 255 then (rawRest? a hashes rest).map (· + hashes + 1) else none
  | _ => none

/-- Number of characters until the automaton is back in the body; an escape that joins two lines has
no such number. -/
def escapeRest? (a : Alphabet) : QuoteState → List Char → Option Nat
  | .body, _ => some 0
  | .continued, _ => none
  | .continuedReturn, _ => none
  | _, [] => none
  | state, c :: rest =>
    match state.step? a c with
    | some (some next) => (escapeRest? a next rest).map (· + 1)
    | _ => none

/-- Length of a character literal from behind its opening quote: one character or one escape, and
the closing quote. -/
def characterRest? (a : Alphabet) (cs : List Char) : Option Nat := do
  let n ← match cs with
    | '\\' :: rest => (escapeRest? a .escape rest).map (· + 1)
    | c :: _ => if a.admits c then some 1 else none
    | [] => none
  if (cs.drop n).head? = some '\'' then some (n + 1) else none

/-- Length of the quoted literal ahead, without its suffix. -/
def quoted? : List Char → Option Nat
  | '"' :: rest => (QuoteState.run? .text .body rest).map (· + 1)
  | 'r' :: rest => (raw? .text rest).map (· + 1)
  | 'b' :: '"' :: rest => (QuoteState.run? .bytes .body rest).map (· + 2)
  | 'b' :: 'r' :: rest => (raw? .bytes rest).map (· + 2)
  | 'c' :: '"' :: rest => (QuoteState.run? .nonzero .body rest).map (· + 2)
  | 'c' :: 'r' :: rest => (raw? .nonzero rest).map (· + 2)
  | 'b' :: '\'' :: rest => (characterRest? .bytes rest).map (· + 2)
  | '\'' :: rest => (characterRest? .text rest).map (· + 1)
  | _ => none

/-- Number of characters of an exponent behind its letter: digits with underscores, and one sign in
front of the first digit. None if there is no digit or a second sign comes first. -/
def exponentRest? (signed valued : Bool) : List Char → Option Nat
  | c :: rest =>
    if isDigit c then (exponentRest? signed true rest).map (· + 1)
    else if c == '_' then (exponentRest? signed valued rest).map (· + 1)
    else if (c == '+' || c == '-') && !valued then
      if signed then none else (exponentRest? true valued rest).map (· + 1)
    else if valued then some 0
    else none
  | [] => if valued then some 0 else none

def isDigitOrUnderscore (c : Char) : Bool := isDigit c || c == '_'

/-- Length of the digits of a number with a point or an exponent. -/
def floatDigits? (cs : List Char) : Option Nat :=
  if !(cs.head?.any isDigit) then none
  else
    let whole := (cs.takeWhile isDigitOrUnderscore).length
    match cs.drop whole with
    | '.' :: rest =>
      if rest.head?.any fun c => c == '.' || Text.isIdentifierStart c then
        -- An underscore behind the point starts an identifier; it cannot start the fraction.
        none
      else
        let fraction := (rest.takeWhile isDigitOrUnderscore).length
        let n := whole + 1 + fraction
        match rest.drop fraction with
        | c :: rest =>
          if c == 'e' || c == 'E' then
            match exponentRest? false false rest with
            | some e => some (n + 1 + e)
            | none => some n
          else some n
        | [] => some n
    | c :: rest =>
      if c == 'e' || c == 'E' then (exponentRest? false false rest).map (whole + 1 + ·) else none
    | [] => none

/-- The base of the whole number ahead, and the length of the mark that says so. -/
def baseOf : List Char → Nat × Nat
  | '0' :: 'x' :: _ => (16, 2)
  | '0' :: 'o' :: _ => (8, 2)
  | '0' :: 'b' :: _ => (2, 2)
  | _ => (10, 0)

/-- Number of characters of a whole number's digits. None if a decimal digit is too large for the
base; a letter that is too large starts the suffix. -/
def wholeRest? (base : Nat) : List Char → Option Nat
  | c :: rest =>
    if c == '_' then (wholeRest? base rest).map (· + 1)
    else match hexValue? c with
      | some d =>
        if d < base then (wholeRest? base rest).map (· + 1)
        else if isDigit c then none
        else some 0
      | none => some 0
  | [] => some 0

/-- Length of the digits of a whole number, with the mark of its base. -/
def wholeDigits? (cs : List Char) : Option Nat := do
  let (base, mark) := baseOf cs
  let digits := cs.drop mark
  let n ← wholeRest? base digits
  if base == 10 && digits.head? == some '_' then none
  else if (digits.take n).all (· == '_') then none
  else some (mark + n)

/-- Length of the number ahead with its suffix; no further identifier character may follow. -/
def number? (cs : List Char) : Option Nat :=
  let ended? (n : Nat) : Option Nat :=
    let m := withSuffix cs n
    if (cs.drop m).head?.any Text.isIdentifierContinue then none else some m
  match (floatDigits? cs).bind ended? with
  | some n => some n
  | none => (wholeDigits? cs).bind ended?

/-- Length of the literal ahead. -/
def literal? (cs : List Char) : Option Nat :=
  match quoted? cs with
  | some n => some (withSuffix cs n)
  | none => number? cs

end Arborist.Source
