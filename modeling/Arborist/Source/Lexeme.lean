import Arborist.Source.Comment
import Arborist.Source.Literal
import Arborist.Source.Token

/-!
# `Arborist.Source.Lexeme`: what stands at the front of a text

`lexeme?` looks at the characters ahead and answers with the lexeme they start with and its length,
which is never zero. `none` means that no token starts there.
-/

set_option autoImplicit false

namespace Arborist.Source

/-- The pieces that a text is cut into. -/
inductive Lexeme where
  /-- White space or an ordinary comment. -/
  | blank
  | doc (comment : DocComment)
  | opening (delimiter : Delimiter)
  | closing (delimiter : Delimiter)
  | word (text : String)
  | lifetime (text : String)
  | mark (char : Char) (joint : Bool)
  | literal (text : String)
  deriving Repr

/-- The characters that operators and separators are made of. -/
def markCharacters : List Char := "~!@#$%^&*-=+|;:,<.>/?'".toList

/-- A mark stands ahead; a slash that starts a comment is none. -/
def startsMark : List Char → Bool
  | '/' :: '/' :: _ => false
  | '/' :: '*' :: _ => false
  | c :: _ => markCharacters.contains c
  | [] => false

/-- Words that cannot be written with the raw mark `r#`. -/
def neverRaw : List String := ["_", "super", "self", "Self", "crate"]

/-- Length of the word ahead, the raw mark included. -/
def wordLength? : List Char → Option Nat
  | 'r' :: '#' :: rest =>
    let n := identifierLength rest
    if n == 0 || neverRaw.contains (String.ofList (rest.take n)) then none else some (n + 2)
  | cs =>
    let n := identifierLength cs
    if n == 0 then none else some n

/-- The characters ahead belong to a quoted literal, so they start no word even if the literal is
malformed. -/
def startsQuoted : List Char → Bool
  | 'r' :: '"' :: _ | 'r' :: '#' :: '"' :: _ | 'r' :: '#' :: '#' :: _ => true
  | 'b' :: '"' :: _ | 'b' :: '\'' :: _ | 'b' :: 'r' :: '"' :: _ | 'b' :: 'r' :: '#' :: _ => true
  | 'c' :: '"' :: _ | 'c' :: 'r' :: '"' :: _ | 'c' :: 'r' :: '#' :: _ => true
  | _ => false

/-- The word ahead. -/
def word? (cs : List Char) : Option Nat := if startsQuoted cs then none else wordLength? cs

/-- The lexeme behind an apostrophe that starts no character literal. A further apostrophe behind
the name would make it one, and a hash sign is kept free. -/
def apostrophe? (rest : List Char) : Option (Lexeme × Nat) := do
  let n ← wordLength? rest
  let after := (rest.drop n).head?
  if after == some '\'' then none
  else if after == some '#' && rest.take 2 ≠ ['r', '#'] then none
  else match literal? rest, word? rest with
    | none, some n => some (.lifetime (String.ofList ('\'' :: rest.take n)), n + 1)
    | _, _ => some (.mark '\'' true, 1)

/-- How a literal that could not be made sense of is written down. -/
def unknownLiteral : List Char := "(/*ERROR*/)".toList

/-- The lexeme ahead and its length. -/
def lexeme? (cs : List Char) : Option (Lexeme × Nat) :=
  match blank? cs with
  | some n => some (.blank, n)
  | none =>
    match docComment? cs with
    | some doc => some (.doc doc, doc.length)
    | none =>
      if cs.take unknownLiteral.length = unknownLiteral then
        some (.literal (String.ofList unknownLiteral), unknownLiteral.length)
      else match cs with
        | [] => none
        | c :: rest =>
          match Delimiter.ofOpening? c, Delimiter.ofClosing? c with
          | some d, _ => some (.opening d, 1)
          | none, some d => some (.closing d, 1)
          | none, none =>
            match literal? cs with
            | some n => some (.literal (String.ofList (cs.take n)), n)
            | none =>
              if c == '\'' then apostrophe? rest
              else if startsMark cs then some (.mark c (startsMark rest), 1)
              else (word? cs).map fun n => (.word (String.ofList (cs.take n)), n)

end Arborist.Source
