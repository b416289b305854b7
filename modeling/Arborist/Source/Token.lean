import Arborist.Source.Position
import Arborist.Text.WhiteSpace

/-!
# `Arborist.Source.Token`: token trees

A source text is read as a sequence of tokens in which every bracketed part is one token, so the
grammar never has to look for a closing bracket. A lifetime is a token of its own. Comments leave
no trace, except that a documentation comment stands for the attribute it abbreviates.
-/

set_option autoImplicit false

namespace Arborist.Source

/-- The three pairs of brackets. -/
inductive Delimiter where
  | paren
  | bracket
  | brace
  deriving DecidableEq, Repr

namespace Delimiter

def opening : Delimiter → Char
  | .paren => '('
  | .bracket => '['
  | .brace => '\x7b'

def closing : Delimiter → Char
  | .paren => ')'
  | .bracket => ']'
  | .brace => '\x7d'

def ofOpening? : Char → Option Delimiter
  | '(' => some .paren
  | '[' => some .bracket
  | '\x7b' => some .brace
  | _ => none

def ofClosing? : Char → Option Delimiter
  | ')' => some .paren
  | ']' => some .bracket
  | '\x7d' => some .brace
  | _ => none

end Delimiter

/-- A token, or a bracketed sequence of tokens. A mark is `joint` when the next character is a mark
too, which is how operators of several characters are told from neighbouring ones. -/
inductive Token where
  | word (text : String) (span : Span)
  | lifetime (text : String) (span : Span)
  | mark (char : Char) (joint : Bool) (span : Span)
  | literal (text : String) (span : Span)
  | group (delimiter : Delimiter) (inside : List Token) (span : Span)
  deriving Repr

namespace Token

def span : Token → Span
  | .word _ span | .lifetime _ span | .mark _ _ span | .literal _ span | .group _ _ span => span

/-- Where the token starts. -/
def start (t : Token) : Position := t.span.start

/-- Where the token ends. -/
def stop (t : Token) : Position := t.span.stop

/-- The place of the last character, which for a bracketed sequence is its closing bracket. -/
def lastCharacter (t : Token) : Position := ⟨t.stop.line, t.stop.column - 1⟩

mutual

/-- The characters of a token. -/
def characters : Token → List Char
  | .word text _ => text.toList
  | .lifetime text _ => text.toList
  | .mark char _ _ => [char]
  | .literal text _ => text.toList
  | .group delimiter inside _ => delimiter.opening :: (listCharacters inside ++ [delimiter.closing])

/-- The characters of the tokens, one after another. -/
def listCharacters : List Token → List Char
  | [] => []
  | t :: ts => characters t ++ listCharacters ts

end

/-- The text of the tokens without any white space, also without that inside literals. -/
def renderAll (ts : List Token) : String :=
  String.ofList ((listCharacters ts).filter fun c => !Text.isWhiteSpace c)

end Token

end Arborist.Source
