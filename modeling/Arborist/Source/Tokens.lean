import Arborist.Source.Lexeme
import Arborist.Text.Printable

/-!
# `Arborist.Source.Tokens`: a text as token trees

`tokens` walks the text one character at a time. At the front of a lexeme it takes in the whole
lexeme and skips its remaining characters; an opening bracket puts the tokens read so far aside,
and the matching closing bracket makes one token of what came in between.

The error is a place: of a bracket that does not match, of a character that starts no token, or of
the innermost bracket that is still open at the end.
-/

set_option autoImplicit false

namespace Arborist.Source

/-- An open bracket and the tokens in front of it, last one first. -/
structure OpenGroup where
  delimiter : Delimiter
  start : Position
  before : List Token
  deriving Repr

/-- A character of a documentation attribute's text, as it is written between the quotes. The zero
character has a short escape, unless the character `next` behind it would make it a longer number.
-/
def docCharacter (c : Char) (next : Option Char) : List Char :=
  match c with
  | '"' => ['\\', '"']
  | '\\' => ['\\', '\\']
  | '\n' => ['\\', 'n']
  | '\r' => ['\\', 'r']
  | '\t' => ['\\', 't']
  | '\x00' =>
    if next.any fun d => '0' ≤ d && d ≤ '7' then ['\\', 'x', '0', '0'] else ['\\', '0']
  | c => if Text.isPrintable c then [c] else Text.codeEscape c

/-- The text of a documentation attribute, as it is written between the quotes. -/
def docText : List Char → List Char
  | [] => []
  | c :: cs => docCharacter c cs.head? ++ docText cs

/-- The tokens of the attribute that a documentation comment stands for, last one first. All of
them have the span of the comment. -/
def docTokens (doc : DocComment) (span : Span) : List Token :=
  let text := String.ofList (['"'] ++ docText doc.text ++ ['"'])
  let group := Token.group .bracket
    [.word "doc" span, .mark '=' false span, .literal text span] span
  if doc.inner then [group, .mark '!' false span, .mark '#' false span]
  else [group, .mark '#' false span]

/-- Reads on at `position`. The next `skip` characters belong to a lexeme that was taken in;
`groups` are the open brackets, innermost first, and `read` the tokens since the innermost one,
last one first. -/
def tokensFrom (position : Position) (skip : Nat) (groups : List OpenGroup) (read : List Token) :
    List Char → Except Position (List Token)
  | [] =>
    match groups with
    | [] => .ok read.reverse
    | g :: _ => .error g.start
  | c :: rest =>
    let next := position.after c
    match skip with
    | skip + 1 => tokensFrom next skip groups read rest
    | 0 =>
      match lexeme? (c :: rest) with
      | none => .error position
      | some (lexeme, n) =>
        let span : Span := ⟨position, position.afterAll ((c :: rest).take n)⟩
        match lexeme with
        | .blank => tokensFrom next (n - 1) groups read rest
        | .doc doc => tokensFrom next (n - 1) groups (docTokens doc span ++ read) rest
        | .opening d => tokensFrom next 0 (⟨d, position, read⟩ :: groups) [] rest
        | .closing d =>
          match groups with
          | [] => .error position
          | g :: groups =>
            if g.delimiter = d then
              let group := Token.group d read.reverse ⟨g.start, next⟩
              tokensFrom next 0 groups (group :: g.before) rest
            else .error position
        | .word text => tokensFrom next (n - 1) groups (.word text span :: read) rest
        | .lifetime text => tokensFrom next (n - 1) groups (.lifetime text span :: read) rest
        | .mark char joint => tokensFrom next (n - 1) groups (.mark char joint span :: read) rest
        | .literal text => tokensFrom next (n - 1) groups (.literal text span :: read) rest

/-- The mark that may stand in front of a text and is no part of it. -/
def byteOrderMark : Char := '\ufeff'

/-- Without a byte order mark in front. -/
def dropByteOrderMark : List Char → List Char
  | c :: cs => if c = byteOrderMark then cs else c :: cs
  | [] => []

/-- Without a first line that names an interpreter. Such a line starts with `#!`, unless the next
token opens an inner attribute. Its line feed stays, so that later lines keep their numbers. -/
def dropInterpreterLine (cs : List Char) : List Char :=
  match cs with
  | '#' :: '!' :: rest =>
    if (skipBlanks rest.length rest).head? = some '[' then cs
    else cs.dropWhile (· != '\n')
  | _ => cs

/-- The tokens of a source text. A leading byte order mark is not counted in the columns; a second
one is, and neither is a token. -/
def tokens (text : List Char) : Except Position (List Token) :=
  let cs := dropInterpreterLine (dropByteOrderMark text)
  match cs with
  | c :: rest =>
    if c = byteOrderMark then tokensFrom (Position.first.after c) 0 [] [] rest
    else tokensFrom .first 0 [] [] cs
  | [] => tokensFrom .first 0 [] [] []

end Arborist.Source
