import Arborist.Glob.Exclusion
import Arborist.Ignore.Directory

/-!
# `Arborist.Discovery`: finding the files to analyze

Below a directory, the source files are those with the right extension that no ignore file and no
exclusion pattern takes out.
-/

set_option autoImplicit false

namespace Arborist

/-- A pattern that excludes files, with its text. -/
structure Exclusion where
  text : String
  glob : Glob
  deriving Repr

namespace Exclusion

def ofText? (text : String) : Option Exclusion := (Glob.exclusion? text).map (⟨text, ·⟩)

/-- The name of the directory or file that a pattern stands for, without the directories around it;
none if other wildcards are left. -/
def plainName? (e : Exclusion) : Option (List Char) :=
  let name := Text.removeAll "/**".toList (Text.removeAll "**/".toList e.text.toList)
  if name.isEmpty || name.contains '*' then none else some name

/-- The pattern matches a relative path, or one of its names is the pattern's own. -/
def excludes (e : Exclusion) (path : String) : Bool :=
  e.glob.accepts path.toList ||
    match e.plainName? with
    | some name => (Path.pieces path).contains name
    | none => false

end Exclusion

/-- Why no files can be found. -/
inductive DiscoveryError where
  | invalidPattern (text : String)
  | inaccessible (path : String) (cause : AccessError)
  deriving DecidableEq, Repr

namespace DiscoveryError

def message : DiscoveryError → String
  | .invalidPattern text => s!"Invalid exclude pattern: {text}"
  | .inaccessible path cause => s!"{path}: IO error for operation on {path}: {cause.message}"

end DiscoveryError

/-- Reads exclusion patterns; the error is the first one that cannot be read. -/
def readExclusions (patterns : List String) : Except DiscoveryError (List Exclusion) :=
  patterns.mapM fun text =>
    match Exclusion.ofText? text with
    | some e => .ok e
    | none => .error (.invalidPattern text)

namespace Snapshot

/-- The extension of source files. -/
def sourceExtension : String := "rs"

/-- The paths below the root of the source files to analyze. -/
def sourcePaths (s : Snapshot) (options : IgnoreOptions) (exclusions : List Exclusion) :
    List String :=
  (s.files.filter fun (file, _) =>
      file.length > options.root.length && options.root.isPrefixOf file).filterMap fun (file, _) =>
    let path := String.intercalate "/" (file.drop options.root.length)
    if Path.extension? path = some sourceExtension && !exclusions.any (·.excludes path) &&
        !s.isIgnoredFile options file then some path
    else none

/-- The source files below a directory, in the order of paths. A lone dash is no directory and has
no files. -/
def discover (s : Snapshot) (root : String) (exclude : List String) (repositories : Bool) :
    Except DiscoveryError (List String) := do
  let exclusions ← readExclusions exclude
  if root = "-" then return []
  let place ← (s.locate root).mapError (.inaccessible root)
  match s.entryAt? place with
  | none => .error (.inaccessible root .missing)
  | some _ =>
    let paths := s.sourcePaths { root := place, repositories } exclusions
    return (paths.map (Path.join root)).mergeSort Path.le

end Snapshot

end Arborist
