import Arborist.Glob.Basic

/-!
# `Arborist.Ignore.Rule`: the lines of ignore files

A line of an ignore file is a pattern for paths below the directory of the file. A pattern with a
slash inside or in front is matched against the whole path, any other against its last name. Of the
lines that match a path the last one decides.
-/

set_option autoImplicit false

namespace Arborist

namespace Glob

/-- The inside of brackets in an ignore pattern. -/
structure Bracket where
  negated : Bool
  /-- The ranges so far, the last one first. -/
  ranges : List CharRange := []
  /-- A dash came last, and may make the last range longer. -/
  open_ : Bool := false

namespace Bracket

/-- Adds a character; none if it would end a range before its start. -/
def add? (b : Bracket) (c : Char) : Option Bracket :=
  match b.ranges with
  | [] => some { b with ranges := [(c, c)] }
  | (low, high) :: ranges =>
    if b.open_ then
      if low ≤ c then some { b with ranges := (low, c) :: ranges, open_ := false } else none
    else if c = '-' then some { b with open_ := true }
    else some { b with ranges := (c, c) :: (low, high) :: ranges }

/-- The token for the closed brackets; a dash at the end stands for itself. -/
def token (b : Bracket) : GlobToken :=
  .oneOf b.negated (if b.open_ then ('-', '-') :: b.ranges else b.ranges)

end Bracket

/-- Where the reader of an ignore pattern stands. -/
inductive IgnoreState where
  /-- Outside brackets; with the character before, none at the start. -/
  | outside (before : Option Char)
  | inside (bracket : Bracket)

/-- Reads the rest of an ignore pattern. Here `?` and `*` match no slash, a backslash takes the next
character as it is, and `**` that does not stand alone between slashes is like `*`. Braces are
refused. -/
def ignoreFrom? : IgnoreState → List Char → Option Glob
  | .outside _, [] => some []
  | .outside before, '*' :: '*' :: cs =>
    let alone := before.all (· = '/')
    match cs with
    | [] => some [.run alone]
    | '/' :: cs =>
      if alone then
        if before.isNone && cs.isEmpty then some [.run true]
        else (ignoreFrom? (.outside (some '/')) cs).map (.directories :: ·)
      else (ignoreFrom? (.outside (some '/')) cs).map fun rest => .run false :: .char '/' :: rest
    | c :: cs => (ignoreFrom? (.outside (some '*')) (c :: cs)).map (.run false :: ·)
  | .outside _, '*' :: cs => (ignoreFrom? (.outside (some '*')) cs).map (.run false :: ·)
  | .outside _, '?' :: cs => (ignoreFrom? (.outside (some '?')) cs).map (.single false :: ·)
  | .outside _, '[' :: '!' :: cs => ignoreFrom? (.inside { negated := true }) cs
  | .outside _, '[' :: '^' :: cs => ignoreFrom? (.inside { negated := true }) cs
  | .outside _, '[' :: cs => ignoreFrom? (.inside { negated := false }) cs
  | .outside _, '\\' :: c :: cs => (ignoreFrom? (.outside (some c)) cs).map (.char c :: ·)
  | .outside _, ['\\'] => none
  | .outside _, c :: cs =>
    if c = '\x7b' ∨ c = '\x7d' then none
    else (ignoreFrom? (.outside (some c)) cs).map (.char c :: ·)
  | .inside _, [] => none
  | .inside b, c :: cs =>
    if c = ']' ∧ b.ranges ≠ [] then (ignoreFrom? (.outside (some ']')) cs).map (b.token :: ·)
    else match b.add? c with
      | some b => ignoreFrom? (.inside b) cs
      | none => none

end Glob

/-- A line of an ignore file. -/
structure IgnoreRule where
  glob : Glob
  /-- The line takes paths back in. -/
  keeps : Bool := false
  /-- The line is only for directories. -/
  directoriesOnly : Bool := false
  deriving Repr

namespace IgnoreRule

/-- The line without the blanks at its end, which a backslash can protect. -/
def trimLine (line : List Char) : List Char :=
  if (Text.dropEnd? ['\\', ' '] line).isSome then line else Text.trimEnd line

/-- The pattern to match paths with: one without a slash may have any directories in front, and one
that ends in `/**` does not match the directory itself. -/
def completePattern (anchored : Bool) (pattern : List Char) : List Char :=
  let pattern :=
    if anchored || pattern.contains '/' || pattern = ['*', '*'] then pattern
    else ['*', '*', '/'] ++ pattern
  if (Text.dropEnd? ['/', '*', '*'] pattern).isSome then pattern ++ ['/', '*'] else pattern

/-- The rule of what stands behind the marks in front of a line. -/
def ofPattern? (keeps anchored : Bool) (pattern : List Char) : Option IgnoreRule :=
  let (directoriesOnly, pattern) := match Text.dropEnd? ['/'] pattern with
    | some pattern => (true, (Text.dropEnd? ['\\'] pattern).getD pattern)
    | none => (false, pattern)
  (Glob.ignoreFrom? (.outside none) (completePattern anchored pattern)).map fun glob =>
    { glob, keeps, directoriesOnly }

/-- The rule of a trimmed line; none for an empty line, a comment and a pattern that cannot be
read. -/
def ofTrimmed? : List Char → Option IgnoreRule
  | [] => none
  | '\\' :: '!' :: pattern => ofPattern? false false ('!' :: pattern)
  | '\\' :: '#' :: pattern => ofPattern? false false ('#' :: pattern)
  | '!' :: '/' :: pattern => ofPattern? true true pattern
  | '!' :: pattern => ofPattern? true false pattern
  | '/' :: pattern => ofPattern? false true pattern
  | pattern => ofPattern? false false pattern

/-- The rule of a line. -/
def ofLine? (line : List Char) : Option IgnoreRule :=
  if line.head? = some '#' then none else ofTrimmed? (trimLine line)

/-- The rules of an ignore file, which may start with a byte order mark. -/
def ofText (text : String) : List IgnoreRule :=
  let cs := text.toList
  (Text.lines ((Text.dropStart? ['\ufeff'] cs).getD cs)).filterMap ofLine?

/-- The rule is about the path. -/
def appliesTo (r : IgnoreRule) (path : List Char) (isDirectory : Bool) : Bool :=
  (isDirectory || !r.directoriesOnly) && r.glob.accepts path

/-- What the rules say of a path: ignored or not; none if they say nothing. -/
def verdict? (rules : List IgnoreRule) (path : List Char) (isDirectory : Bool) : Option Bool :=
  (rules.reverse.find? (·.appliesTo path isDirectory)).map fun r => !r.keeps

end IgnoreRule

end Arborist
