import Arborist.Text.Bytes
import Arborist.Text.WhiteSpace

/-!
# `Arborist.Rules.CallText`: the text of calls and macro invocations

The rules that propose fixes cut receivers and arguments out of the text of a node. The text is not
read again as tokens for this: a receiver is what is left in front of `.method()`, and arguments are
told apart by a scan for commas that counts brackets and skips texts in double quotes. The scan
knows neither character literals nor comments.
-/

set_option autoImplicit false

namespace Arborist.Rules

/-- The text behind the last double colon. -/
def afterLastColons? : List Char → Option (List Char)
  | [] => none
  | c :: cs =>
    match afterLastColons? cs, cs with
    | some after, _ => some after
    | none, ':' :: after => if c = ':' then some after else none
    | none, _ => none

/-- The last part of the path that names a macro. -/
def macroBase (name : String) : String :=
  String.ofList ((afterLastColons? name.toList).getD name.toList)

/-- The receiver in the text of a call `receiver.method()` without arguments. White space may stand
between any two of its parts. -/
def receiver? (text method : List Char) : Option (List Char) := do
  let rest ← Text.dropEnd? [')'] (Text.trimEnd text)
  let rest ← Text.dropEnd? ['('] (Text.trimEnd rest)
  let rest ← Text.dropEnd? method (Text.trimEnd rest)
  let rest ← Text.dropEnd? ['.'] (Text.trimEnd rest)
  let receiver := Text.trimEnd rest
  if receiver.isEmpty then none else some receiver

/-- The number of bytes of the receiver. -/
def receiverLength? (text method : String) : Option Nat :=
  (receiver? text.toList method.toList).map Text.byteLength

/-- Where a scan for commas is. -/
structure CommaScan where
  /-- Brackets opened and not closed; below zero if more were closed. A character changes it by one
  at most, so a signed number of 32 bits holds it for every text of fewer than 2³¹ characters
  (`CommaScan.natAbs_depth_after_le`). -/
  depth : Int := 0
  inText : Bool := false
  /-- The character before was a backslash that escapes this one. -/
  escaped : Bool := false

/-- A comma stands outside of brackets and texts in double quotes. -/
def hasTopLevelComma : CommaScan → List Char → Bool
  | _, [] => false
  | s, c :: cs =>
    if s.inText then
      if s.escaped then hasTopLevelComma { s with escaped := false } cs
      else if c = '\\' then hasTopLevelComma { s with escaped := true } cs
      else hasTopLevelComma { s with inText := c ≠ '"' } cs
    else if c = '"' then hasTopLevelComma { s with inText := true } cs
    else if c = '(' ∨ c = '[' ∨ c = '\x7b' then
      hasTopLevelComma { s with depth := s.depth + 1 } cs
    else if c = ')' ∨ c = ']' ∨ c = '\x7d' then
      hasTopLevelComma { s with depth := s.depth - 1 } cs
    else if c = ',' ∧ s.depth = 0 then true
    else hasTopLevelComma s cs

/-- The text between two brackets that enclose it. -/
def between? (opening closing : Char) (text : List Char) : Option (List Char) :=
  (Text.dropStart? [opening] text).bind (Text.dropEnd? [closing])

/-- The argument of a macro invocation that has a single one. A comma behind it does not count. -/
def singleArgument? (text : List Char) : Option (List Char) := do
  let (_, behind) ← Text.splitFirst? '!' text
  let arguments := Text.trim behind
  let inner ← (between? '(' ')' arguments).orElse fun _ => between? '[' ']' arguments
  let inner := Text.trim inner
  let inner := Text.trimEnd ((Text.dropEnd? [','] inner).getD inner)
  if inner.isEmpty || hasTopLevelComma {} inner then none else some inner

end Arborist.Rules
