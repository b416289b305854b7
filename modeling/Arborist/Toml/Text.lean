/-!
# `Arborist.Toml.Text`: quoted texts of a configuration file

A text in double quotes has escapes, one in single quotes has none. Three quotes open a text that
may span lines: a line break right behind them does not count, and at the other end up to two more
quotes belong to the text. Every line break in it counts as a single newline character.

Every function takes the characters still to be read and answers `none` where they break the rules.
-/

set_option autoImplicit false

namespace Arborist.Toml

/-- A blank inside a line. -/
def isBlank (c : Char) : Bool := c == ' ' || c == '\t'

/-- A character that may stand in a comment or a text as it is: no control character but the tab. -/
def isPlain (c : Char) : Bool := c == '\t' || ('\x20' ≤ c && c ≠ '\x7f')

def skipBlanks (cs : List Char) : List Char := cs.dropWhile isBlank

/-- What comes behind a line break, if there is one. -/
def lineBreak? : List Char → Option (List Char)
  | '\n' :: cs => some cs
  | '\r' :: '\n' :: cs => some cs
  | _ => none

/-- The value of a digit below `base`. -/
def digit? (base : Nat) (c : Char) : Option Nat :=
  let value? :=
    if '0' ≤ c && c ≤ '9' then some (c.toNat - '0'.toNat)
    else if 'a' ≤ c && c ≤ 'f' then some (c.toNat - 'a'.toNat + 10)
    else if 'A' ≤ c && c ≤ 'F' then some (c.toNat - 'A'.toNat + 10)
    else none
  value?.filter (· < base)

/-- The character with a code of hexadecimal digits, if there is one. -/
def scalar? (digits : List Char) : Option Char := do
  let code ← digits.foldlM (fun n c => (digit? 16 c).map (n * 16 + ·)) 0
  if code < 0xD800 || (0xE000 ≤ code && code < 0x110000) then some (Char.ofNat code) else none

/-- The character that a letter after a backslash stands for. -/
def escape? : Char → Option Char
  | 'b' => some '\x08'
  | 't' => some '\t'
  | 'n' => some '\n'
  | 'f' => some '\x0c'
  | 'r' => some '\r'
  | '"' => some '"'
  | '\\' => some '\\'
  | _ => none

/-- Puts a character in front of a text that was read. -/
def push (c : Char) (read : List Char × List Char) : List Char × List Char := (c :: read.1, read.2)

/-- The text up to a double quote. -/
def basicText? : List Char → Option (List Char × List Char)
  | [] => none
  | '"' :: cs => some ([], cs)
  | '\\' :: 'u' :: a :: b :: c :: d :: cs => do
    return push (← scalar? [a, b, c, d]) (← basicText? cs)
  | '\\' :: 'U' :: a :: b :: c :: d :: e :: f :: g :: h :: cs => do
    return push (← scalar? [a, b, c, d, e, f, g, h]) (← basicText? cs)
  | '\\' :: c :: cs => do return push (← escape? c) (← basicText? cs)
  | c :: cs => if isPlain c && c ≠ '\\' then (basicText? cs).map (push c) else none

/-- The text up to a single quote. -/
def literalText? : List Char → Option (List Char × List Char)
  | [] => none
  | c :: cs =>
    if c = '\x27' then some ([], cs)
    else if isPlain c then (literalText? cs).map (push c)
    else none

/-- What comes behind blanks and line breaks. -/
def skipBlankLines : List Char → List Char
  | '\r' :: '\n' :: cs => skipBlankLines cs
  | c :: cs => if isBlank c || c == '\n' then skipBlankLines cs else c :: cs
  | [] => []

/-- What comes behind a backslash at the end of a line: blanks and line breaks do not count up to
the next other character. -/
def continuation? (cs : List Char) : Option (List Char) :=
  (lineBreak? (skipBlanks cs)).map skipBlankLines

/-- The quotes of a long text that close it: those that belong to the text are left over. -/
def closing? (quote : Char) (cs : List Char) : Option (List Char × List Char) :=
  let count := (cs.takeWhile (· == quote)).length
  if count < 3 then none
  else
    let used := min count 5
    some (List.replicate (used - 3) quote, cs.drop used)

/-- The text up to three double quotes. `fuel` bounds the number of characters. -/
def longBasicText? : (fuel : Nat) → List Char → Option (List Char × List Char)
  | 0, _ => none
  | fuel + 1, cs =>
    match closing? '"' cs with
    | some closed => some closed
    | none =>
      match cs with
      | [] => none
      | '\\' :: 'u' :: a :: b :: c :: d :: rest => do
        return push (← scalar? [a, b, c, d]) (← longBasicText? fuel rest)
      | '\\' :: 'U' :: a :: b :: c :: d :: e :: f :: g :: h :: rest => do
        return push (← scalar? [a, b, c, d, e, f, g, h]) (← longBasicText? fuel rest)
      | '\\' :: rest =>
        match continuation? rest with
        | some behind => longBasicText? fuel behind
        | none =>
          match rest with
          | c :: behind => do return push (← escape? c) (← longBasicText? fuel behind)
          | [] => none
      | c :: rest =>
        match lineBreak? cs with
        | some behind => (longBasicText? fuel behind).map (push '\n')
        | none => if isPlain c then (longBasicText? fuel rest).map (push c) else none

/-- The text up to three single quotes. `fuel` bounds the number of characters. -/
def longLiteralText? : (fuel : Nat) → List Char → Option (List Char × List Char)
  | 0, _ => none
  | fuel + 1, cs =>
    match closing? '\x27' cs with
    | some closed => some closed
    | none =>
      match lineBreak? cs with
      | some behind => (longLiteralText? fuel behind).map (push '\n')
      | none =>
        match cs with
        | [] => none
        | c :: rest => if isPlain c then (longLiteralText? fuel rest).map (push c) else none

/-- What comes behind the line break at the front of a long text. -/
def dropFirstBreak (cs : List Char) : List Char := (lineBreak? cs).getD cs

/-- A quoted text of any kind, from its first quote on. -/
def text? : List Char → Option (List Char × List Char)
  | '"' :: '"' :: '"' :: cs => longBasicText? (cs.length + 1) (dropFirstBreak cs)
  | '"' :: cs => basicText? cs
  | '\x27' :: '\x27' :: '\x27' :: cs => longLiteralText? (cs.length + 1) (dropFirstBreak cs)
  | '\x27' :: cs => literalText? cs
  | _ => none

end Arborist.Toml
