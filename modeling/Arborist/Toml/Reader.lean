import Arborist.Toml.Document
import Arborist.Toml.Moment
import Arborist.Toml.Number

/-!
# `Arborist.Toml.Reader`: configuration text to tables

A document is a sequence of lines: assignments, headers, comments and empty lines. `read?` answers
`none` for a text that breaks the grammar or the rules on what may be defined twice.

Every function takes the characters still to be read. The loops and `value?` share one budget of
steps, and `read?` starts them with three steps per character, which is enough because no three
steps in a row read nothing. Arrays and tables in braces nest less than `nestingLimit` deep, and a
key has fewer parts than that.
-/

set_option autoImplicit false

namespace Arborist.Toml

/-- What arrays, tables in braces and keys with dots stay below. -/
def nestingLimit : Nat := 80

/-- A character of a key without quotes. -/
def isBare (c : Char) : Bool :=
  ('A' ≤ c && c ≤ 'Z') || ('a' ≤ c && c ≤ 'z') || ('0' ≤ c && c ≤ '9') || c == '_' || c == '-'

/-- One part of a key. -/
def keyPart? : List Char → Option (String × List Char)
  | '"' :: cs => (basicText? cs).map fun (key, rest) => (String.ofList key, rest)
  | '\x27' :: cs => (literalText? cs).map fun (key, rest) => (String.ofList key, rest)
  | cs =>
    let key := cs.takeWhile isBare
    if key.isEmpty then none else some (String.ofList key, cs.dropWhile isBare)

/-- A key: parts with dots between them and blanks around. -/
def key? : (fuel : Nat) → List Char → Option (String × List String × List Char)
  | 0, _ => none
  | fuel + 1, cs => do
    let (part, rest) ← keyPart? (skipBlanks cs)
    match skipBlanks rest with
    | '.' :: rest => do
      let (next, parts, rest) ← key? fuel rest
      return (part, next :: parts, rest)
    | rest => return (part, [], rest)

/-- A key with the blanks around it, of not too many parts. -/
def boundedKey? (cs : List Char) : Option (String × List String × List Char) :=
  (key? (cs.length + 1) cs).filter fun (_, parts, _) => parts.length + 1 < nestingLimit

/-- What comes behind a comment: the end of its line. -/
def comment? : List Char → Option (List Char)
  | '#' :: cs =>
    let rest := cs.dropWhile isPlain
    if rest.isEmpty || (lineBreak? rest).isSome then some rest else none
  | _ => none

/-- What comes behind blanks, line breaks and comments. -/
def skipTrivia? : (fuel : Nat) → List Char → Option (List Char)
  | 0, _ => none
  | fuel + 1, cs =>
    match skipBlankLines cs with
    | '#' :: rest => do skipTrivia? fuel (← comment? ('#' :: rest))
    | rest => some rest

mutual

/-- A value; `depth` is how deep arrays and tables in it may still nest. -/
def value? : (fuel : Nat) → (depth : Nat) → List Char → Option (Value × List Char)
  | 0, _, _ => none
  | _ + 1, _, '"' :: cs =>
    (text? ('"' :: cs)).map fun (t, rest) => (.string (String.ofList t), rest)
  | _ + 1, _, '\x27' :: cs =>
    (text? ('\x27' :: cs)).map fun (t, rest) => (.string (String.ofList t), rest)
  | _ + 1, _, 't' :: 'r' :: 'u' :: 'e' :: cs => some (.boolean true, cs)
  | _ + 1, _, 'f' :: 'a' :: 'l' :: 's' :: 'e' :: cs => some (.boolean false, cs)
  | _ + 1, 0, '[' :: _ => none
  | fuel + 1, depth + 1, '[' :: cs => do
    let (elements, rest) ← elements? fuel depth cs
    return (.array elements, rest)
  | _ + 1, 0, '\x7b' :: _ => none
  | fuel + 1, depth + 1, '\x7b' :: cs => do
    let (assignments, rest) ← match skipBlanks cs with
      | '\x7d' :: rest => some ([], rest)
      | _ => assignments? fuel depth cs
    return (← inlineTable? assignments, rest)
  | _ + 1, _, cs =>
    (moment? cs).orElse fun _ => (decimal? cs).orElse fun _ => (special? cs).orElse fun _ =>
      integer? cs

/-- The elements of an array, up to its closing bracket. -/
def elements? : (fuel : Nat) → (depth : Nat) → List Char → Option (List Value × List Char)
  | 0, _, _ => none
  | fuel + 1, depth, cs => do
    match ← skipTrivia? fuel cs with
    | ']' :: rest => return ([], rest)
    | rest =>
      let (value, rest) ← value? fuel depth rest
      match ← skipTrivia? fuel rest with
      | ',' :: rest =>
        let (values, rest) ← elements? fuel depth rest
        return (value :: values, rest)
      | ']' :: rest => return ([value], rest)
      | _ => none

/-- The assignments of a table in braces, up to its closing brace. -/
def assignments? : (fuel : Nat) → (depth : Nat) → List Char → Option (List Assignment × List Char)
  | 0, _, _ => none
  | fuel + 1, depth, cs => do
    let (assignment, rest) ← assignment? fuel depth cs
    match skipBlanks rest with
    | ',' :: rest =>
      let (assignments, rest) ← assignments? fuel depth rest
      return (assignment :: assignments, rest)
    | '\x7d' :: rest => return ([assignment], rest)
    | _ => none

/-- A key, an equals sign and a value. -/
def assignment? : (fuel : Nat) → (depth : Nat) → List Char → Option (Assignment × List Char)
  | 0, _, _ => none
  | fuel + 1, depth, cs => do
    let (key, parts, rest) ← boundedKey? cs
    match rest with
    | '=' :: rest =>
      let (value, rest) ← value? fuel depth (skipBlanks rest)
      return (⟨key, parts, value⟩, rest)
    | _ => none

end

/-- What a line holds. -/
inductive Line where
  | empty
  | assignment (a : Assignment)
  | header (repeated : Bool) (key : String) (rest : List String)

/-- The contents of a line. -/
def lineContents? (fuel : Nat) : List Char → Option (Line × List Char)
  | [] => some (.empty, [])
  | '[' :: '[' :: cs => do
    match ← boundedKey? cs with
    | (key, parts, ']' :: ']' :: rest) => return (.header true key parts, rest)
    | _ => none
  | '[' :: cs => do
    match ← boundedKey? cs with
    | (key, parts, ']' :: rest) => return (.header false key parts, rest)
    | _ => none
  | c :: cs =>
    if c = '#' ∨ (lineBreak? (c :: cs)).isSome then some (.empty, c :: cs)
    else (assignment? fuel (nestingLimit - 1) (c :: cs)).map fun (a, rest) => (.assignment a, rest)

/-- What comes behind the end of a line. -/
def lineEnd? (cs : List Char) : Option (List Char) := do
  let rest ← match skipBlanks cs with
    | '#' :: rest => comment? ('#' :: rest)
    | rest => some rest
  if rest.isEmpty then some [] else lineBreak? rest

/-- The lines of a document. -/
def lines? : (fuel : Nat) → List Char → Option (List Line)
  | 0, _ => none
  | fuel + 1, cs => do
    let (line, rest) ← lineContents? (fuel + 1) (skipBlanks cs)
    let rest ← lineEnd? rest
    if rest.isEmpty then return [line] else return line :: (← lines? fuel rest)

/-- The assignments in front of the first header, and the headers with what is below them. -/
def blocks : List Line → List Assignment × List Block
  | [] => ([], [])
  | .empty :: lines => blocks lines
  | .assignment a :: lines =>
    let (front, rest) := blocks lines
    (a :: front, rest)
  | .header repeated key parts :: lines =>
    let (below, rest) := blocks lines
    ([], ⟨repeated, key, parts, below⟩ :: rest)

/-- The entries of the table that a text describes. A byte order mark in front does not count. -/
def read? (text : String) : Option (List (String × Value)) := do
  let cs := match text.toList with
    | '\ufeff' :: rest => rest
    | cs => cs
  let (front, rest) := blocks (← lines? (3 * (cs.length + 1)) cs)
  document? front rest

end Arborist.Toml
