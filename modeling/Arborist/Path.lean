import Arborist.Text.WhiteSpace

/-!
# `Arborist.Path`: paths as sequences of components

A path is a text with slashes. Two spellings of one path have the same components: repeated and
trailing slashes do not count, and neither does a dot, except as the very first component of a
relative path. Paths are compared, ordered and cut by component.
-/

set_option autoImplicit false

namespace Arborist.Path

/-- One component of a path. -/
inductive Component where
  | root
  | current
  | parent
  | normal (name : String)
  deriving DecidableEq, Repr

namespace Component

/-- Position in the order of components; names come last. -/
def rank : Component → Nat
  | .root => 0
  | .current => 1
  | .parent => 2
  | .normal _ => 3

/-- The order of components: by kind, and names by their characters. -/
def compare (a b : Component) : Ordering :=
  match a, b with
  | .normal x, .normal y => Ord.compare x y
  | a, b => Ord.compare a.rank b.rank

/-- The component that a piece between slashes stands for; none for an empty one and for a dot. -/
def ofPiece? (piece : List Char) : Option Component :=
  if piece = [] ∨ piece = ['.'] then none
  else if piece = ['.', '.'] then some .parent
  else some (.normal (String.ofList piece))

end Component

/-- The path starts at the root. -/
def isAbsolute (path : String) : Bool := path.toList.head? = some '/'

/-- The pieces between the slashes. -/
def pieces (path : String) : List (List Char) := Text.splitAll '/' path.toList

/-- The component that only the front of a path can have: the root or a leading dot. -/
def front (path : String) : List Component :=
  if isAbsolute path then [.root]
  else if (pieces path).head? = some ['.'] then [.current]
  else []

/-- The components of a path. -/
def components (path : String) : List Component :=
  front path ++ (pieces path).filterMap Component.ofPiece?

/-- The last component, if it is a name. -/
def fileName? (path : String) : Option String :=
  match (components path).getLast? with
  | some (.normal name) => some name
  | _ => none

/-- The components of the directory that holds the path; none if there is no such directory. -/
def parentComponents (path : String) : List Component :=
  match (components path).getLast? with
  | some .root => []
  | _ => (components path).dropLast

/-- The order of sequences of components. -/
def compareComponents : List Component → List Component → Ordering
  | [], [] => .eq
  | [], _ :: _ => .lt
  | _ :: _, [] => .gt
  | a :: as, b :: bs => (a.compare b).then (compareComponents as bs)

/-- The order of paths. -/
def compare (a b : String) : Ordering := compareComponents (components a) (components b)

/-- `a` does not come after `b`. -/
def le (a b : String) : Bool := compare a b != .gt

/-- A piece that stands for no component. -/
def isIdle (piece : List Char) : Bool := piece = [] ∨ piece = ['.']

/-- Pieces with slashes between them again. -/
def ofPieces (pieces : List (List Char)) : String :=
  String.intercalate "/" (pieces.map String.ofList)

/-- Without the pieces at the end that stand for no component. -/
def dropIdleEnd (pieces : List (List Char)) : List (List Char) :=
  (pieces.reverse.dropWhile isIdle).reverse

/-- Without what stands for no component at the end of the text; its front stays as it is. -/
def trimEnd (path : String) : String :=
  match pieces path with
  | [] => path
  | first :: rest =>
    if isAbsolute path then "/" ++ ofPieces (dropIdleEnd rest)
    else if first = ['.'] then ofPieces (first :: dropIdleEnd rest)
    else ofPieces (dropIdleEnd (first :: rest))

/-- What is left of `pieces` behind the first `count` components that they stand for. -/
def dropComponents : (count : Nat) → List (List Char) → List (List Char)
  | 0, pieces => pieces
  | _ + 1, [] => []
  | count + 1, piece :: pieces =>
    if isIdle piece then dropComponents (count + 1) pieces else dropComponents count pieces

/-- The path below `base`, if its components start with those of `base`. -/
def relativeTo? (path base : String) : Option String :=
  let prefixed := components base
  if prefixed.isPrefixOf (components path) then
    if prefixed.isEmpty then some (trimEnd path)
    else
      let count := prefixed.length - (front path).length
      let rest := (dropComponents count (pieces path)).dropWhile isIdle
      some (ofPieces (dropIdleEnd rest))
  else none

/-- `path` below `base`, unless `path` starts at the root. -/
def join (base path : String) : String :=
  if isAbsolute path || base.isEmpty then path
  else if base.toList.getLast? = some '/' then base ++ path
  else base ++ "/" ++ path

/-- The path without its last component; none if there is nothing to take away. -/
def parent? (path : String) : Option String :=
  match (components path).getLast? with
  | none => none
  | some .root => none
  | some .current => some ""
  | some _ =>
    let kept := (dropIdleEnd (pieces path)).dropLast
    some (
      if isAbsolute path then trimEnd ("/" ++ ofPieces (kept.drop 1))
      else trimEnd (ofPieces kept))

/-- The path and its parents, at most `count` of them. -/
def ancestorsUpTo : (count : Nat) → String → List String
  | 0, path => [path]
  | count + 1, path =>
    match parent? path with
    | some parent => path :: ancestorsUpTo count parent
    | none => [path]

/-- The path and its parents, the nearest first. There are at most as many parents as components. -/
def ancestors (path : String) : List String := ancestorsUpTo (components path).length path

/-- What stands behind the last dot of the file name; none if only the first character is a dot. -/
def extension? (path : String) : Option String := do
  let (after, before) ← Text.splitFirst? '.' (← fileName? path).toList.reverse
  if before.isEmpty then none else some (String.ofList after.reverse)

end Arborist.Path
