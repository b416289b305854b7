import Arborist.Tree.OfSource
import Arborist.Tree.Validate
import Arborist.Walk

/-!
# `Arborist.Engine`: analyzing and fixing one file

An engine is a catalog of rules and a configuration for them. Which rules are in use depends on the
category of the file, so there is a table with one entry for each category (`Engine.interests`), and
`Engine.interest_eq` says that a file is looked up where the entry for its category is.

`Engine.analyze` walks over the tree of a file once, for all rules in use. A tree that does not fit
the text is an error, and nothing else is: rules that fail are diagnostics of the report.
`Engine.fix` asks the rules for proposals, lets the resolver choose among them and applies those
that were chosen. Each proposal goes with the position of its finding, and a rule is found by the
code of the finding.
-/

set_option autoImplicit false

namespace Arborist

/-- Why a file could not be analyzed. -/
inductive AnalyzeError where
  | read (path cause : String)
  | source (path : String) (error : SourceError)
  | tree (path : String) (error : TreeError)
  | fix (path : String) (error : FixError)
  deriving DecidableEq, Repr

namespace AnalyzeError

def message : AnalyzeError → String
  | .read path cause => s!"Failed to read {path}: {cause}"
  | .source path error => s!"Failed to parse {path}: {error.message}"
  | .tree path error => s!"Inconsistent syntax tree for {path}: {error.message}"
  | .fix path error => s!"Failed to apply fixes to {path}: {error.message}"

/-- The path that the error is about. -/
def path : AnalyzeError → String
  | .read path _ => path
  | .source path _ => path
  | .tree path _ => path
  | .fix path _ => path

end AnalyzeError

/-- A catalog of rules and a configuration for them. -/
structure Engine where
  catalog : Catalog := .empty
  config : Config := {}

namespace Engine

/-- The rules in use for each category of files. There is one entry for a category, at the position
of the category. -/
def interests (e : Engine) : List Interest :=
  FileCategory.all.map (Interest.build e.catalog e.config)

/-- The rules in use for a category of files, as the engine's table has them. -/
def interest (e : Engine) (category : FileCategory) : Interest :=
  e.interests.get ⟨category.index, by
    rw [interests, List.length_map]
    exact category.index_lt⟩

/-- The entry that is found for a category is the one that was built for it. -/
theorem interest_eq (e : Engine) (category : FileCategory) :
    e.interest category = Interest.build e.catalog e.config category := by
  cases category <;> rfl

/-- Warnings about tables of rules that the catalog does not have. -/
def warnings (e : Engine) : List String :=
  ((e.config.rules.map (·.1)).filter fun key => (e.catalog.get? key).isNone).map
    ("Unknown rule in configuration: " ++ ·)

/-- The walk over a file's tree; none if no rule is in use. -/
def walk? (e : Engine) (file : SourceFile) (tree : SyntaxTree) : Option WalkState :=
  let interest := e.interest file.category
  if interest.isEmpty then none else some (walk file tree interest)

/-- Analyzes a file with its tree. -/
def analyze (e : Engine) (file : SourceFile) (tree : SyntaxTree) : Except AnalyzeError FileReport :=
  match tree.validate (Text.byteLength file.content.toList) with
  | .error error => .error (.tree file.path error)
  | .ok () =>
    let (reporter, stats) := match e.walk? file tree with
      | some w => (w.reporter, w.stats)
      | none => ({}, {})
    .ok {
      path := file.path
      category := file.category
      diagnostics := reporter.finalize file (Suppressions.parse file.content)
      stats }

/-- Analyzes a source text under a path. -/
def analyzeSource (e : Engine) (path content : String) : Except AnalyzeError FileReport :=
  match SyntaxTree.ofSource content with
  | .error error => .error (.source path error)
  | .ok tree => e.analyze (SourceFile.ofPath path content "") tree

/-- The proposals of the rules for the findings of a report, each with the position of its
finding. -/
def proposals (e : Engine) (file : SourceFile) (tree : SyntaxTree) (report : FileReport) :
    List Proposal :=
  report.diagnostics.zipIdx.flatMap fun (d, position) =>
    if d.isFinding then
      match e.catalog.get? d.code with
      | some rule =>
        ((rule.propose file tree d).getD []).map fun p => { p with diagnostic := position }
      | none => []
    else []

/-- Fixes what a report found; `allowRisky` asks for fixes that may change behaviour. -/
def fix (e : Engine) (file : SourceFile) (tree : SyntaxTree) (report : FileReport)
    (allowRisky : Bool) : Except AnalyzeError FixOutcome :=
  let resolver : Resolver := {
    slack := e.config.analyzer.fixSlack
    allowRisky := allowRisky || e.config.analyzer.unsafeFixes }
  let resolution := resolver.resolve (e.proposals file tree report) report.diagnostics file.content
  let edits := resolution.script
  if edits.isEmpty then .ok { resolution, edits }
  else match applyEdits file.content edits with
    | .ok fixed => .ok { resolution, edits, fixed := some fixed }
    | .error error => .error (.fix file.path error)

end Engine

end Arborist
