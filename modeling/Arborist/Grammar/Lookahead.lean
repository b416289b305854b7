import Arborist.Source.Literal
import Arborist.Source.Token
import Arborist.Tree.Kind

/-!
# `Arborist.Grammar.Lookahead`: questions about the tokens ahead

Every question is about the first tokens of a list; about later ones it is asked of `ts.drop n`. A
bracketed sequence is one token and an operator of two characters is two.
-/

set_option autoImplicit false

namespace Arborist.Grammar

open Source (Delimiter Token)

/-- Words that are no identifiers. -/
def keywords : List String :=
  ["_", "abstract", "as", "async", "await", "become", "box", "break", "const", "continue", "crate",
   "do", "dyn", "else", "enum", "extern", "false", "final", "fn", "for", "if", "impl", "in", "let",
   "loop", "macro", "match", "mod", "move", "mut", "override", "priv", "pub", "ref", "return",
   "Self", "self", "static", "struct", "super", "trait", "true", "try", "type", "typeof", "unsafe",
   "unsized", "use", "virtual", "where", "while", "yield"]

def isIdentifier (word : String) : Bool := !keywords.contains word

/-- This word, as a keyword or as an identifier. -/
def atWord (word : String) : List Token → Bool
  | .word text _ :: _ => text == word
  | _ => false

/-- One of these words. -/
def atWordOf (words : List String) : List Token → Bool
  | .word text _ :: _ => words.contains text
  | _ => false

def atAnyWord : List Token → Bool
  | .word _ _ :: _ => true
  | _ => false

def atIdentifier : List Token → Bool
  | .word text _ :: _ => isIdentifier text
  | _ => false

def atLifetime : List Token → Bool
  | .lifetime _ _ :: _ => true
  | _ => false

def atGroup (delimiter : Delimiter) : List Token → Bool
  | .group d _ _ :: _ => d == delimiter
  | _ => false

/-- These marks with nothing between them. -/
def atMarkList : List Char → List Token → Bool
  | [], _ => true
  | [c], .mark d _ _ :: _ => c == d
  | c :: cs, .mark d joint _ :: ts => c == d && joint && atMarkList cs ts
  | _, _ => false

/-- The operator or separator `marks`, perhaps as the beginning of a longer one. -/
def atMarks (marks : String) (ts : List Token) : Bool := atMarkList marks.toList ts

/-- A dot that is not the beginning of a range. -/
def atDot (ts : List Token) : Bool := atMarks "." ts && !atMarks ".." ts

/-- A colon that is not the beginning of a path separator. -/
def atColon (ts : List Token) : Bool := atMarks ":" ts && !atMarks "::" ts

/-- The literal is a number. -/
def isNumberText (text : String) : Bool := text.toList.head?.any Source.isDigit

/-- The literal is a number with a fraction or an exponent. -/
def isFloatText (text : String) : Bool := (Source.floatDigits? text.toList).isSome

/-- The literal is a string of characters, not of bytes. -/
def isStringText (text : String) : Bool :=
  match text.toList with
  | '"' :: _ => true
  | 'r' :: _ => true
  | _ => false

/-- The kind of node that a literal is. -/
def literalKind (text : String) : NodeKind :=
  match text.toList with
  | '\'' :: _ => .charLiteral
  | 'b' :: '\'' :: _ => .charLiteral
  | _ => if isNumberText text then .numberLiteral else .stringLiteral

/-- A literal, a truth value, or a number with a minus sign. -/
def atLiteral : List Token → Bool
  | .literal _ _ :: _ => true
  | .word text _ :: _ => text == "true" || text == "false"
  | .mark '-' _ _ :: .literal text _ :: _ => isNumberText text
  | _ => false

def atStringLiteral : List Token → Bool
  | .literal text _ :: _ => isStringText text
  | _ => false

/-- The words that may start a path besides identifiers. -/
def pathWords : List String := ["self", "Self", "super", "crate"]

/-- The start of a path without a self type in angle brackets. -/
def atPath (ts : List Token) : Bool := atIdentifier ts || atWordOf pathWords ts || atMarks "::" ts

/-- An opening angle bracket starts generic parameters rather than a self type. -/
def atGenerics (ts : List Token) : Bool :=
  let second := ts.drop 1
  let third := ts.drop 2
  atMarks "<" ts &&
    (atMarks ">" second || atMarks "#" second ||
      ((atLifetime second || atIdentifier second) &&
        (atMarks ">" third || atMarks "," third || atColon third || atMarks "=" third)) ||
      atWord "const" second)

/-- The value of the digits in the given base, underscores apart. -/
def digitsValue (base : Nat) (cs : List Char) : Nat :=
  cs.foldl (fun v c => match Source.hexValue? c with
    | some d => v * base + d
    | none => v) 0

/-- The position that a whole number without suffix names in a tuple. -/
def tupleIndex? (text : String) : Option Nat := do
  let cs := text.toList
  let (base, mark) := Source.baseOf cs
  let n ← Source.wholeDigits? cs
  if n ≠ cs.length || isFloatText text then none
  else
    let value := digitsValue base (cs.drop mark)
    if value < Nat.pow 2 32 then some value else none

end Arborist.Grammar
