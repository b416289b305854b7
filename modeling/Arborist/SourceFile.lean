import Arborist.Path
import Arborist.Text.LineIndex
import Arborist.Text.Range

/-!
# `Arborist.SourceFile`: files under analysis

The category of a file is read off its path by the conventions of the language's build tool. Rules
say which categories they apply to.
-/

set_option autoImplicit false

namespace Arborist

/-- What a file is for. -/
inductive FileCategory where
  | source
  | test
  | exampleProgram
  | bench
  | build
  | generated
  deriving DecidableEq, Repr, Inhabited

namespace FileCategory

/-- Every category, in order. -/
def all : List FileCategory := [.source, .test, .exampleProgram, .bench, .build, .generated]

def name : FileCategory → String
  | .source => "source"
  | .test => "test"
  | .exampleProgram => "example"
  | .bench => "bench"
  | .build => "build"
  | .generated => "generated"

/-- Position among the categories. -/
def index : FileCategory → Nat
  | .source => 0
  | .test => 1
  | .exampleProgram => 2
  | .bench => 3
  | .build => 4
  | .generated => 5

/-- A category has its place in the list of all categories. -/
theorem index_lt (category : FileCategory) : category.index < all.length := by
  cases category <;> decide

def ofName? (text : String) : Option FileCategory := all.find? (·.name = text)

/-- The category of a file, from its path alone. The directories count, and the file's own name. -/
def detect (path : String) : FileCategory :=
  let file := ((Path.fileName? path).getD "").toList
  let starts (s : String) := (Text.dropStart? s.toList file).isSome
  let ends (s : String) := (Text.dropEnd? s.toList file).isSome
  let inside (names : List String) :=
    (Path.parentComponents path).any fun c => names.any fun name => c = .normal name
  if Text.occursIn ".generated.".toList file || ends "_generated.rs" ||
      inside ["generated", "gen"] then
    .generated
  else if file = "build.rs".toList then .build
  else if inside ["benches"] then .bench
  else if inside ["examples"] then .exampleProgram
  else if inside ["tests", "test"] || ends "_test.rs" || ends "_tests.rs" || starts "test_" ||
      file = "tests.rs".toList then .test
  else .source

end FileCategory

/-- Lines and columns of both ends of a range, counted from 1. -/
structure Location where
  line : Nat := 0
  column : Nat := 0
  endLine : Nat := 0
  endColumn : Nat := 0
  deriving DecidableEq, Repr, Inhabited

/-- A file under analysis. -/
structure SourceFile where
  content : String
  category : FileCategory
  /-- The path below the root of the analysis. -/
  path : String
  index : LineIndex
  deriving Repr

namespace SourceFile

/-- The file at `path` with the given contents. A path outside `root` stays as it is. -/
def ofPath (path content root : String) : SourceFile :=
  let relative := (Path.relativeTo? path root).getD path
  ⟨content, FileCategory.detect relative, relative, LineIndex.ofText content⟩

/-- Lines and columns of a byte range. -/
def location (file : SourceFile) (range : TextRange) : Location :=
  let start := file.index.lineColumn range.start
  let stop := file.index.lineColumn range.stop
  ⟨start.line, start.column, stop.line, stop.column⟩

/-- The text of a byte range; empty if the range does not fit. -/
def text (file : SourceFile) (range : TextRange) : String :=
  (Text.slice? file.content range.start range.stop).getD ""

end SourceFile

end Arborist
