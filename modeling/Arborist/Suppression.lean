import Arborist.Text.WhiteSpace

/-!
# `Arborist.Suppression`: directives in comments

A comment such as `// treelint: allow(TL001, no-debug-macro) reason="…"` keeps the rules it names
from reporting on its own line and on the line below; with `allow-file` it does so everywhere.

A directive is looked for behind every pair of slashes in a line, and the first that is one counts.
Slashes inside a string literal are no different from others.
-/

set_option autoImplicit false

namespace Arborist

/-- What a comment allows. -/
structure Directive where
  /-- Codes or names of rules, or `all`. -/
  rules : List String
  reason : Option String
  fileWide : Bool
  deriving DecidableEq, Repr

namespace Directive

/-- The directive names this rule. -/
def covers (d : Directive) (code name : String) : Bool :=
  d.rules.contains "all" || d.rules.contains code || d.rules.contains name

/-- The text between the quotes of `reason="…"`. -/
def reasonOf? (cs : List Char) : Option String := do
  let rest ← Text.dropStart? "reason".toList (Text.trim cs)
  let rest ← Text.dropStart? ['='] (Text.trimStart rest)
  let rest ← Text.dropStart? ['"'] (Text.trimStart rest)
  let (reason, _) ← Text.splitFirst? '"' rest
  return String.ofList reason

/-- The directive that a comment is, without the marks of the comment. -/
def ofComment? (cs : List Char) : Option Directive := do
  let body := Text.trim (← Text.dropStart? "treelint:".toList cs)
  let (fileWide, rest) ← match Text.dropStart? "allow-file(".toList body with
    | some rest => some (true, rest)
    | none => (Text.dropStart? "allow(".toList body).map fun rest => (false, rest)
  let (inside, after) ← Text.splitFirst? ')' rest
  let rules := ((Text.splitAll ',' inside).map Text.trim).filter (!·.isEmpty)
  if rules.isEmpty then none else some ⟨rules.map String.ofList, reasonOf? after, fileWide⟩

/-- The texts that start at a pair of slashes; pairs do not overlap. -/
def comments : List Char → List (List Char)
  | '/' :: '/' :: rest => ('/' :: '/' :: rest) :: comments rest
  | _ :: rest => comments rest
  | [] => []

/-- The first directive in a line. -/
def ofLine? (line : List Char) : Option Directive :=
  (comments line).findSome? fun comment =>
    ofComment? (Text.trim (comment.dropWhile fun c => c == '/' || c == '!'))

end Directive

/-- The directives of a file. -/
structure Suppressions where
  /-- Directives for single lines, with their lines counted from 1. -/
  byLine : List (Nat × Directive)
  fileWide : List Directive
  deriving DecidableEq, Repr

namespace Suppressions

/-- No directives. -/
def none : Suppressions := ⟨[], []⟩

/-- The directives of a text. -/
def parse (content : String) : Suppressions :=
  let found := (Text.lines content.toList).zipIdx.filterMap fun (line, i) =>
    (Directive.ofLine? line).map fun d => (i + 1, d)
  ⟨found.filter fun (_, d) => !d.fileWide, (found.filter fun (_, d) => d.fileWide).map (·.2)⟩

def isEmpty (s : Suppressions) : Bool := s.byLine.isEmpty && s.fileWide.isEmpty

/-- The directives of one line. -/
def onLine (s : Suppressions) (line : Nat) : List Directive :=
  (s.byLine.filter (·.1 = line)).map (·.2)

/-- The directive that allows a rule on a line counted from 1: on the line itself, on the line
above, or for the whole file, in this order. -/
def find? (s : Suppressions) (line : Nat) (code name : String) : Option Directive :=
  (s.onLine line ++ s.onLine (line - 1) ++ s.fileWide).find? (·.covers code name)

end Suppressions

end Arborist
