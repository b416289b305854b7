import Arborist.Json.Basic

/-!
# `Arborist.Json.Printer`: values to JSON text

`render` writes a value on one line without spaces. `renderPretty` puts each element and each
member on a line of its own, two spaces deeper than what holds it; an empty array or object stays
on its line. Only the quote, the backslash and control characters are escaped.
-/

set_option autoImplicit false

namespace Arborist.Json

/-- The lower-case hexadecimal digit of a number below sixteen. -/
def hexChar (n : Nat) : Char :=
  if n < 10 then Char.ofNat ('0'.toNat + n) else Char.ofNat ('a'.toNat + (n - 10))

/-- A character inside a string. -/
def escapeChar (c : Char) : List Char :=
  if c == '"' then ['\\', '"']
  else if c == '\\' then ['\\', '\\']
  else if c == '\n' then ['\\', 'n']
  else if c == '\r' then ['\\', 'r']
  else if c == '\t' then ['\\', 't']
  else if c.toNat == 8 then ['\\', 'b']
  else if c.toNat == 12 then ['\\', 'f']
  else if c.toNat < 0x20 then ['\\', 'u', '0', '0', hexChar (c.toNat / 16), hexChar (c.toNat % 16)]
  else [c]

/-- A string with its quotes. -/
def quote (s : String) : String :=
  String.ofList ('"' :: (s.toList.flatMap escapeChar ++ ['"']))

mutual

/-- The value on one line. -/
def render : Json → String
  | .null => "null"
  | .bool true => "true"
  | .bool false => "false"
  | .int value => toString value
  | .decimal text => text
  | .string value => quote value
  | .array elements => "[" ++ ",".intercalate (renderElements elements) ++ "]"
  | .object members => "\x7b" ++ ",".intercalate (renderMembers members) ++ "\x7d"

def renderElements : List Json → List String
  | [] => []
  | element :: rest => render element :: renderElements rest

def renderMembers : List (String × Json) → List String
  | [] => []
  | (name, value) :: rest => (quote name ++ ":" ++ render value) :: renderMembers rest

end

/-- A line break and the blanks of `depth` levels. -/
def newline (depth : Nat) : String := String.ofList ('\n' :: List.replicate (2 * depth) ' ')

mutual

/-- The value over several lines, inside `depth` levels. -/
def renderPrettyAt (depth : Nat) : Json → String
  | .null => "null"
  | .bool true => "true"
  | .bool false => "false"
  | .int value => toString value
  | .decimal text => text
  | .string value => quote value
  | .array [] => "[]"
  | .array (first :: rest) =>
    "[" ++ ",".intercalate (prettyElements (depth + 1) (first :: rest)) ++ newline depth ++ "]"
  | .object [] => "\x7b\x7d"
  | .object (first :: rest) =>
    "\x7b" ++ ",".intercalate (prettyMembers (depth + 1) (first :: rest)) ++ newline depth
      ++ "\x7d"

def prettyElements (depth : Nat) : List Json → List String
  | [] => []
  | element :: rest =>
    (newline depth ++ renderPrettyAt depth element) :: prettyElements depth rest

def prettyMembers (depth : Nat) : List (String × Json) → List String
  | [] => []
  | (name, value) :: rest =>
    (newline depth ++ quote name ++ ": " ++ renderPrettyAt depth value)
      :: prettyMembers depth rest

end

/-- The value over several lines. -/
def renderPretty (j : Json) : String := renderPrettyAt 0 j

end Arborist.Json
