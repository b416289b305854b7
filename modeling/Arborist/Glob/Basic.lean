import Arborist.Text.WhiteSpace

/-!
# `Arborist.Glob.Basic`: wildcard patterns

A pattern is a sequence of tokens. It is matched by keeping every rest of the text that may follow
what the tokens so far have matched: a token takes each such rest to the rests behind it. The
pattern matches if in the end one of the rests is empty.
-/

set_option autoImplicit false

namespace Arborist

/-- Characters from the first up to the second. -/
abbrev CharRange := Char × Char

/-- One element of a wildcard pattern. -/
inductive GlobToken where
  | char (c : Char)
  /-- Any one character; a slash only if `slash`. -/
  | single (slash : Bool)
  /-- One character in some of the ranges, or in none of them if `negated`. -/
  | oneOf (negated : Bool) (ranges : List CharRange)
  /-- Any characters; slashes only if `slash`. -/
  | run (slash : Bool)
  /-- Any number of leading directories with their slashes. -/
  | directories
  deriving DecidableEq, Repr

namespace GlobToken

/-- The rests of `cs` behind characters that satisfy `p`. -/
def restsWhile (p : Char → Bool) : List Char → List (List Char)
  | [] => [[]]
  | c :: cs => (c :: cs) :: if p c then restsWhile p cs else []

/-- The rests of `cs` behind its slashes. -/
def restsBehindSlash : List Char → List (List Char)
  | [] => []
  | c :: cs => if c = '/' then cs :: restsBehindSlash cs else restsBehindSlash cs

/-- The rest behind one character that satisfies `p`. -/
def restBehind (p : Char → Bool) : List Char → List (List Char)
  | [] => []
  | c :: cs => if p c then [cs] else []

/-- The rests of `cs` behind what the token matches. -/
def rests : GlobToken → List Char → List (List Char)
  | .char expected, cs => restBehind (· = expected) cs
  | .single slash, cs => restBehind (fun c => slash || c ≠ '/') cs
  | .oneOf negated ranges, cs =>
    restBehind (fun c => (ranges.any fun (low, high) => low ≤ c ∧ c ≤ high) != negated) cs
  | .run slash, cs => restsWhile (fun c => slash || c ≠ '/') cs
  | .directories, cs => cs :: restsBehindSlash cs

end GlobToken

/-- A wildcard pattern. -/
abbrev Glob := List GlobToken

namespace Glob

/-- The rests behind what the whole pattern matches, from any of the given rests. -/
def rests (glob : Glob) (from_ : List (List Char)) : List (List Char) :=
  glob.foldl (fun found token => (found.flatMap token.rests).eraseDups) from_

/-- The pattern matches the whole text. -/
def accepts (glob : Glob) (text : List Char) : Bool := (glob.rests [text]).any List.isEmpty

end Glob

end Arborist
