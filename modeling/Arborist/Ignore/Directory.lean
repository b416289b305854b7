import Arborist.FileSystem
import Arborist.Ignore.Rule

/-!
# `Arborist.Ignore.Directory`: which paths are ignored

A directory can have three sets of ignore rules: its file `.ignore`, its file `.gitignore`, and the
exclusions of the repository that it is the top of. The rules of a nearer directory win over those
of one further out, and each set wins over the next one. The last two count only inside a
repository, and not beyond its top.
-/

set_option autoImplicit false

namespace Arborist

/-- How ignore files are taken into account. -/
structure IgnoreOptions where
  /-- Where the search for files starts. -/
  root : Place
  /-- Follow the rules of repositories, and of directories outside the root. -/
  repositories : Bool
  deriving Repr

namespace Snapshot

/-- The rules of a file in a directory. -/
def ignoreRules (s : Snapshot) (directory name : Place) : List IgnoreRule :=
  match s.entryAt? (directory ++ name) with
  | some (.file (some text)) => IgnoreRule.ofText text
  | _ => []

/-- The directory is the top of a repository. -/
def isRepository (s : Snapshot) (directory : Place) : Bool :=
  (s.entryAt? (directory ++ [".git"])).isSome

/-- The directories around a place, the nearest first. -/
def directoriesAround (place : Place) : List Place :=
  (List.range place.length).reverse.map place.take

/-- The directories up to the top of the repository that the first one is in; none outside
repositories. -/
def repositoryPart (s : Snapshot) : List Place → List Place
  | [] => []
  | directory :: outer =>
    if s.isRepository directory then [directory]
    else match s.repositoryPart outer with
      | [] => []
      | part => directory :: part

/-- What the rules in files of one name say of a place; the nearest directory that says something
decides. -/
def ignoreVerdict? (s : Snapshot) (name place : Place) (isDirectory : Bool)
    (directories : List Place) : Option Bool :=
  directories.findSome? fun directory =>
    IgnoreRule.verdict? (s.ignoreRules directory name)
      (String.intercalate "/" (place.drop directory.length)).toList isDirectory

/-- The place itself is ignored. -/
def isIgnored (s : Snapshot) (options : IgnoreOptions) (place : Place) (isDirectory : Bool) :
    Bool :=
  let directories := (directoriesAround place).filter fun directory =>
    options.repositories || options.root.isPrefixOf directory
  let repository := if options.repositories then s.repositoryPart directories else []
  let verdict := (s.ignoreVerdict? [".ignore"] place isDirectory directories)
    |>.orElse (fun _ => s.ignoreVerdict? [".gitignore"] place isDirectory repository)
    |>.orElse (fun _ => s.ignoreVerdict? [".git", "info", "exclude"] place isDirectory repository)
  verdict.getD false

/-- The file or a directory between it and the root is ignored. -/
def isIgnoredFile (s : Snapshot) (options : IgnoreOptions) (file : Place) : Bool :=
  let inner := (directoriesAround file).filter fun directory =>
    directory.length > options.root.length
  s.isIgnored options file false || inner.any fun directory => s.isIgnored options directory true

end Snapshot

end Arborist
