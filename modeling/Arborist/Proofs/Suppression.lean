import Arborist.Proofs.Reporter.Finalize
import Arborist.Proofs.Suppression.Directive
import Arborist.Proofs.Text.Lines

/-!
# `Arborist.Proofs.Suppression`: directives count on the lines of their findings

Directives are looked for in the lines of a text, and a finding is on the line of its offset. These
are two ways to count lines. They agree where it matters: a line has the directive that the piece
between line feeds has (`Directive.lines_bind_ofLine?`), since a directive ends before white space
at the end of its line and an empty line has none.

`finalize_omits_iff` says which findings a file's own directives leave out, in terms of line feeds
alone.
-/

set_option autoImplicit false

namespace Arborist

namespace Directive

/-- A carriage return behind a line is behind each of its comments, and makes no comment of its
own. -/
theorem comments_concat_return (line : List Char) :
    comments (line ++ ['\r']) = (comments line).map (· ++ ['\r']) := by
  fun_induction comments line with
  | case1 rest ih => simp [comments, ih]
  | case2 c rest hne ih =>
      -- The carriage return is no slash, so it makes no pair with a slash before it.
      have hpair : ∀ rest', c = '/' → rest ++ ['\r'] = '/' :: rest' → False := by
        intro rest' hc hrest
        cases rest with
        | nil => simp at hrest
        | cons d rest =>
            rw [List.cons_append, List.cons.injEq] at hrest
            exact hne rest hc (by rw [hrest.1])
      rw [List.cons_append, comments.eq_2 _ _ hpair, ih]
  | case3 => simp [comments]

/-- A carriage return at the end of a line makes no difference to its directive. It counts as white
space, and comments are trimmed before they are read. -/
theorem ofLine?_concat_return (line : List Char) : ofLine? (line ++ ['\r']) = ofLine? line := by
  rw [ofLine?, ofLine?, comments_concat_return, List.findSome?_map]
  congr 1
  funext comment
  have htrim : Text.trim ((comment ++ ['\r']).dropWhile fun c => c == '/' || c == '!') =
      Text.trim (comment.dropWhile fun c => c == '/' || c == '!') := by
    rw [List.dropWhile_append]
    split
    · rename_i hslashes
      rw [List.isEmpty_iff.1 hslashes]
      rfl
    · exact Text.trim_concat rfl _
  rw [Function.comp_apply, htrim]

/-- The directive in a line, counted from 1, of a text that is split at line feeds. -/
def inLine? (content : String) : (line : Nat) → Option Directive
  | 0 => none
  | i + 1 => (content.toList.splitOn '\n')[i]?.bind ofLine?

/-- The lines that are searched have the directives of the pieces between line feeds. -/
theorem lines_bind_ofLine? (content : String) (i : Nat) :
    (Text.lines content.toList)[i]?.bind ofLine? = inLine? content (i + 1) :=
  Text.lines_bind_eq rfl ofLine?_concat_return _ _

/-- The directive names the rule by its code or its name, or it names all rules. -/
def Names (directive : Directive) (code name : String) : Prop :=
  "all" ∈ directive.rules ∨ code ∈ directive.rules ∨ name ∈ directive.rules

/-- A directive covers a rule exactly if it names it. -/
theorem covers_iff {directive : Directive} {code name : String} :
    directive.covers code name = true ↔ directive.Names code name := by
  simp [covers, Names, or_assoc]

end Directive

namespace Suppressions

open Directive

variable {content : String} {directive : Directive}

/-- The directives that a search finds, with their lines. The search counts lines from 0 on and the
directives are kept with lines from 1 on. -/
theorem mem_found_iff {line : Nat} :
    (line, directive) ∈ ((Text.lines content.toList).zipIdx.filterMap fun (text, i) =>
        (ofLine? text).map fun d => (i + 1, d)) ↔ inLine? content line = some directive := by
  rw [List.mem_filterMap]
  constructor
  · rintro ⟨⟨text, i⟩, hline, hfound⟩
    obtain ⟨d, hd, heq⟩ := Option.map_eq_some_iff.1 hfound
    obtain ⟨rfl, rfl⟩ := Prod.mk.inj heq
    rw [← lines_bind_ofLine?, List.mem_zipIdx_iff_getElem?.1 hline, Option.bind_some, hd]
  · intro hline
    cases line with
    -- There is no line 0.
    | zero => cases hline
    | succ i =>
        rw [← lines_bind_ofLine?] at hline
        obtain ⟨text, htext, hd⟩ := Option.bind_eq_some_iff.1 hline
        exact ⟨(text, i), List.mem_zipIdx_iff_getElem?.2 htext, by simp [hd]⟩

/-- The directives that count for single lines stay with the line they were found in. -/
theorem mem_onLine_parse {line : Nat} :
    directive ∈ (parse content).onLine line ↔
      inLine? content line = some directive ∧ directive.fileWide = false := by
  rw [onLine, parse, ← mem_found_iff]
  simp [and_comm]

/-- Those that count for the whole file may stand in any line. -/
theorem mem_fileWide_parse :
    directive ∈ (parse content).fileWide ↔
      (∃ line, inLine? content line = some directive) ∧ directive.fileWide = true := by
  simp only [← mem_found_iff]
  simp [parse]

/-- A rule is allowed on a line if the line or the line above has a directive that names it, or if
any line has one for the whole file. -/
theorem find?_parse_isSome_iff {line : Nat} {code name : String} :
    ((parse content).find? line code name).isSome = true ↔
      (∃ n directive, (n = line ∨ n = line - 1) ∧ inLine? content n = some directive ∧
        directive.fileWide = false ∧ directive.Names code name) ∨
      ∃ n directive, inLine? content n = some directive ∧ directive.fileWide = true ∧
        directive.Names code name := by
  rw [find?, List.find?_isSome]
  simp only [List.mem_append, mem_onLine_parse, mem_fileWide_parse, covers_iff]
  constructor
  · rintro ⟨directive, ((⟨hline, hscope⟩ | ⟨hline, hscope⟩) | ⟨⟨n, hline⟩, hscope⟩), hnames⟩
    · exact .inl ⟨line, directive, .inl rfl, hline, hscope, hnames⟩
    · exact .inl ⟨line - 1, directive, .inr rfl, hline, hscope, hnames⟩
    · exact .inr ⟨n, directive, hline, hscope, hnames⟩
  · rintro (⟨n, directive, rfl | rfl, hline, hscope, hnames⟩ |
      ⟨n, directive, hline, hscope, hnames⟩)
    · exact ⟨directive, .inl (.inl ⟨hline, hscope⟩), hnames⟩
    · exact ⟨directive, .inl (.inr ⟨hline, hscope⟩), hnames⟩
    · exact ⟨directive, .inr ⟨⟨n, hline⟩, hscope⟩, hnames⟩

end Suppressions

/-- The line of a range, counted from 1, follows the line feeds before its start; a start past the
end is taken to be the end. -/
theorem location_line (content : String) (category : FileCategory) (path : String)
    (range : TextRange) :
    (SourceFile.location ⟨content, category, path, .ofText content⟩ range).line =
      1 + Text.newlinesBefore content (min range.start content.utf8ByteSize) := by
  rw [SourceFile.location, LineIndex.lineColumn, Text.lineOf_ofText, Nat.add_comm]
  simp [LineIndex.length, LineIndex.ofText]

/-- Which findings the directives of their own file leave out. Let the finding start on line `line`:
one more than there are line feeds in the bytes before its start, or in the whole content if it
starts past the end. It is left out exactly if line `line` or the line before it, of the content
split at line feeds, has a directive for single lines that names the rule, or if some line has such
a directive for the whole file. -/
theorem finalize_omits_iff (content : String) (category : FileCategory) (path : String)
    {r : Reporter} {d : Diagnostic} (hreported : d ∈ r.diagnostics) (hkind : d.kind = .finding) :
    let file : SourceFile := ⟨content, category, path, .ofText content⟩
    let line := 1 + Text.newlinesBefore content (min d.range.start content.utf8ByteSize)
    d.located file ∉ r.finalize file (Suppressions.parse content) ↔
      (∃ n directive, (n = line ∨ n = line - 1) ∧
        Directive.inLine? content n = some directive ∧ directive.fileWide = false ∧
        directive.Names d.code d.rule) ∨
      ∃ n directive, Directive.inLine? content n = some directive ∧
        directive.fileWide = true ∧ directive.Names d.code d.rule := by
  intro file line
  rw [← Suppressions.find?_parse_isSome_iff, Reporter.mem_finalize_iff]
  have hline : line = (file.location d.range).line := (location_line _ _ _ _).symm
  rw [hline]
  constructor
  · intro hout
    by_contra hallowed
    exact hout ⟨d, hreported, fun homits => hallowed homits.2, rfl⟩
  · rintro hallowed ⟨c, -, hkept, hlocated⟩
    -- Another report with the same final form has the same code, rule and range.
    have hcode : d.code = c.code := (congrArg Diagnostic.code hlocated :)
    have hrule : d.rule = c.rule := (congrArg Diagnostic.rule hlocated :)
    have hrange : d.range = c.range := (congrArg Diagnostic.range hlocated :)
    have hfinding : d.kind = c.kind := (congrArg Diagnostic.kind hlocated :)
    rw [hcode, hrule, hrange] at hallowed
    exact hkept ⟨hfinding ▸ hkind, hallowed⟩

/-- A finding past the end of a text with two-byte characters and carriage returns: it counts as one
on the empty line behind the last line feed, below a directive. -/
theorem finalize_omits_iff_past_end :
    let content := "é\r\n// treelint: allow(R1)\r\n"
    let file : SourceFile := ⟨content, .source, "a.rs", .ofText content⟩
    let d : Diagnostic :=
      { code := "R1", rule := "first", severity := .info, range := ⟨99, 7⟩, message := "" }
    d ∈ (⟨[d]⟩ : Reporter).diagnostics ∧ d.kind = .finding ∧
      d.located file ∉ Reporter.finalize ⟨[d]⟩ file (Suppressions.parse content) := by
  intro content file d
  have hreported : d ∈ (⟨[d]⟩ : Reporter).diagnostics := List.mem_singleton_self d
  refine ⟨hreported, rfl, (finalize_omits_iff content .source "a.rs" hreported rfl).2 ?_⟩
  have hline : 1 + Text.newlinesBefore content (min d.range.start content.utf8ByteSize) = 3 := by
    decide +kernel
  have hdirective : Directive.inLine? content 2 = some ⟨["R1"], none, false⟩ := by decide +kernel
  refine .inl ⟨2, _, .inr ?_, hdirective, rfl, .inr (.inl (by simp [d]))⟩
  rw [hline]

end Arborist
