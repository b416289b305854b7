import Arborist.Proofs.Tree.Json
import Arborist.Report.Json

/-!
# `Arborist.Proofs.Report.Json`: a result survives its JSON text, less its fixed texts

`BatchResult.json_keeps_all_but_fixed`: the result for a batch, written as JSON in whatever layout,
is read back as the same result without the new texts of fixed files, and is written the same way
again. Only the size of the numbers matters: priorities have 32 bits with a sign and everything else
has 64, which is `Fits`.

A result is nested a dozen records deep, so both halves of the round trip go together: `Conveys`
says of one value that its JSON is plain and that reading undoes writing. Each record has one such
lemma, made from those of its members.
-/

set_option autoImplicit false

namespace Arborist

/-! ### One value -/

namespace Json

/-- The value is written as plain JSON, which is read back as `result`. -/
structure Conveys {α : Type} (encode : α → Json) (decode : Json → Option α) (value result : α) :
    Prop where
  plain : (encode value).Plain
  read : decode (encode value) = some result

section

variable {α : Type} {encode : α → Json} {decode : Json → Option α}

/-- A truth value is written as one. -/
theorem conveys_bool (b : Bool) : Conveys .bool asBool? b b := ⟨.bool b, rfl⟩

/-- A number is read back if it has 64 bits. -/
theorem conveys_nat {n : Nat} (h : n < Nat.pow 2 64) : Conveys ofNat asNat? n n :=
  ⟨.nat h, asNatBelow?_ofNat h⟩

/-- A constant is written as its name. -/
theorem conveys_name {name : α → String} {ofName? : String → Option α} {a : α}
    (h : ofName? (name a) = some a) :
    Conveys (fun a => .string (name a)) (fun j => j.asConstant?.bind ofName?) a a :=
  ⟨.string _, h⟩

/-- A list is read back value by value, with whatever becomes of each value. The order stays, and
one value that cannot be read spoils the whole list. -/
theorem conveys_list {f : α → α} {values : List α}
    (h : ∀ a ∈ values, Conveys encode decode a (f a)) :
    Conveys (ofList encode) (asListOf? decode) values (values.map f) where
  plain := .ofList fun a ha => (h a ha).plain
  read := by
    show (values.map encode).mapM decode = some (values.map f)
    induction values with
    | nil => rfl
    | cons a values ih =>
        rw [List.forall_mem_cons] at h
        simp [h.1.read, ih h.2]

/-- A list is read back as it is if its values are. -/
theorem conveys_list_self {values : List α} (h : ∀ a ∈ values, Conveys encode decode a a) :
    Conveys (ofList encode) (asListOf? decode) values values := by
  simpa using conveys_list (f := id) h

end

end Json

open Json (Conveys conveys_bool conveys_nat conveys_name conveys_list conveys_list_self)

namespace TextRange

instance (r : TextRange) : Decidable r.Fits := inferInstanceAs (Decidable (_ ∧ _))

/-- A range is read back; its two ends have 64 bits each. -/
theorem conveys {r : TextRange} (h : r.Fits) : Conveys toJson ofJson? r r :=
  ⟨h.plain_toJson, ofJson?_toJson h⟩

end TextRange

/-! ### Diagnostics -/

/-- A severity is written as its name, and no two have the same. -/
theorem Severity.conveys (s : Severity) : Conveys toJson ofJson? s s :=
  conveys_name (by cases s <;> rfl)

/-- So is the category of a file. -/
theorem FileCategory.conveys (c : FileCategory) : Conveys toJson ofJson? c c :=
  conveys_name (by cases c <;> rfl)

/-- So is the kind of a diagnostic. -/
theorem DiagnosticKind.conveys (k : DiagnosticKind) : Conveys toJson ofJson? k k :=
  conveys_name (by cases k <;> rfl)

namespace Location

/-- Lines and columns of 64 bits. -/
def Fits (l : Location) : Prop :=
  l.line < Nat.pow 2 64 ∧ l.column < Nat.pow 2 64 ∧ l.endLine < Nat.pow 2 64 ∧
    l.endColumn < Nat.pow 2 64

instance (l : Location) : Decidable l.Fits := inferInstanceAs (Decidable (_ ∧ _ ∧ _ ∧ _))

/-- A location is read back number by number. All four are members of one record, each found by its
name. -/
theorem conveys {l : Location} (h : l.Fits) : Conveys toJson ofJson? l l := by
  obtain ⟨hline, hcolumn, hendLine, hendColumn⟩ := h
  have hline := conveys_nat hline
  have hcolumn := conveys_nat hcolumn
  have hendLine := conveys_nat hendLine
  have hendColumn := conveys_nat hendColumn
  refine ⟨.object ?_, ?_⟩
  · simp [hline.plain, hcolumn.plain, hendLine.plain, hendColumn.plain]
  · simp [ofJson?, toJson, Json.fields?, Json.field?, Json.valuesOf, hline.read, hcolumn.read,
      hendLine.read, hendColumn.read]

end Location

namespace Diagnostic

/-- A range and a location that fit. -/
def Fits (d : Diagnostic) : Prop := d.range.Fits ∧ d.location.Fits

instance (d : Diagnostic) : Decidable d.Fits :=
  inferInstanceAs (Decidable (d.range.Fits ∧ d.location.Fits))

/-- The members of a written diagnostic; only the correction may be absent. Reading asks for all of
them at once. -/
theorem fields?_toJson (d : Diagnostic) :
    d.toJson.fields?
        ["code", "rule", "severity", "range", "location", "message", "correction", "kind"] =
      some [some (.string d.code), some (.string d.rule), some d.severity.toJson,
        some d.range.toJson, some d.location.toJson, some (.string d.message),
        d.correction.map .string, some d.kind.toJson] := by
  obtain ⟨code, rule, severity, range, location, message, correction, kind⟩ := d
  cases correction <;> simp [toJson, Json.fields?, Json.field?, Json.valuesOf]

/-- A diagnostic is read back. A correction that is not written is read as none, and one that is
written is read as it is. -/
theorem conveys {d : Diagnostic} (h : d.Fits) : Conveys toJson ofJson? d d := by
  have hrange := TextRange.conveys h.1
  have hlocation := Location.conveys h.2
  refine ⟨.object ?_, ?_⟩
  · simp only [List.forall_mem_append, List.forall_mem_cons]
    refine ⟨⟨⟨.string _, .string _, d.severity.conveys.plain, hrange.plain, hlocation.plain,
      .string _, by simp⟩, ?_⟩, d.kind.conveys.plain, by simp⟩
    cases d.correction with
    | none => simp
    | some correction => simpa using .string correction
  · have hcorrection : Json.withDefault none (Json.asOption? Json.asString?)
        (d.correction.map .string) = some d.correction := by
      cases d.correction <;> rfl
    simp [ofJson?, fields?_toJson, d.severity.conveys.read, hrange.read, hlocation.read,
      hcorrection, d.kind.conveys.read, Json.asString?]

end Diagnostic

/-! ### Fixes -/

namespace Edit

/-- Its range fits; any text can be put in. -/
def Fits (e : Edit) : Prop := e.range.Fits

instance (e : Edit) : Decidable e.Fits := inferInstanceAs (Decidable e.range.Fits)

/-- An edit is its range and its text. -/
theorem conveys {e : Edit} (h : e.Fits) : Conveys toJson ofJson? e e := by
  have hrange := TextRange.conveys h
  refine ⟨.object ?_, ?_⟩
  · simp [hrange.plain, Json.Plain.string]
  · simp [ofJson?, toJson, Json.fields?, Json.field?, Json.valuesOf, hrange.read, Json.asString?]

end Edit

namespace Proposal

/-- A position of 64 bits and a priority of 32 bits with its sign. -/
def Fits (p : Proposal) : Prop :=
  p.diagnostic < Nat.pow 2 64 ∧ (-(Int.pow 2 31) ≤ p.priority ∧ p.priority < Int.pow 2 31) ∧
    ∀ e ∈ p.edits, e.Fits

instance (p : Proposal) : Decidable p.Fits :=
  inferInstanceAs (Decidable (_ ∧ (_ ∧ _) ∧ ∀ e ∈ p.edits, e.Fits))

/-- A priority may be below zero, which is the only place where numbers with a sign are written. It
has 32 bits, and any such number can be read as one of 64 bits. -/
theorem conveys_priority {n : Int} (h : -(Int.pow 2 31) ≤ n ∧ n < Int.pow 2 31) :
    Conveys Json.int priorityOfJson? n n := by
  refine ⟨?_, ?_⟩
  · have h31 : Int.pow 2 31 = 2147483648 := by decide
    have h63 : Nat.pow 2 63 = 9223372036854775808 := by decide
    have h64 : Nat.pow 2 64 = 18446744073709551616 := by decide
    rw [h31] at h
    cases n with
    | ofNat n =>
        have hn : (n : Int) < 2147483648 := h.2
        exact .nat (by omega)
    | negSucc n => exact .neg (by omega)
  · -- The reader checks the bounds once more, for 32 bits.
    show (if -(Int.pow 2 31) ≤ n ∧ n < Int.pow 2 31 then some n else none) = some n
    exact if_pos h

/-- The safety of a proposal is written as its name. -/
theorem conveys_safety (s : Safety) :
    Conveys (fun s => .string s.name) (fun j => j.asConstant?.bind Safety.ofName?) s s :=
  conveys_name (by cases s <;> rfl)

/-- A proposal is read back member by member, its edits in their order. Texts need no condition,
since every text can be written. -/
theorem conveys {p : Proposal} (h : p.Fits) : Conveys toJson ofJson? p p := by
  obtain ⟨hdiagnostic, hpriority, hedits⟩ := h
  have hdiagnostic := conveys_nat hdiagnostic
  have hpriority := conveys_priority hpriority
  have hedits := conveys_list_self fun e he => Edit.conveys (hedits e he)
  have hsafety := conveys_safety p.safety
  refine ⟨.object ?_, ?_⟩
  · simp [hdiagnostic.plain, hpriority.plain, hedits.plain, hsafety.plain, Json.Plain.string]
  · simp [ofJson?, toJson, Json.fields?, Json.field?, Json.valuesOf, hdiagnostic.read,
      hpriority.read, hedits.read, hsafety.read, Json.asString?]

end Proposal

namespace FixError

/-- The ranges and the numbers that the error names fit. -/
def Fits : FixError → Prop
  | .empty => True
  | .unknownDiagnostic position => position < Nat.pow 2 64
  | .inverted range => range.Fits
  | .outOfBounds range length => range.Fits ∧ length < Nat.pow 2 64
  | .outsideDiagnostic range allowed => range.Fits ∧ allowed.Fits
  | .overlapping first second => first.Fits ∧ second.Fits

instance : (e : FixError) → Decidable e.Fits
  | .empty => inferInstanceAs (Decidable True)
  | .unknownDiagnostic _ => inferInstanceAs (Decidable (_ < _))
  | .inverted range => inferInstanceAs (Decidable range.Fits)
  | .outOfBounds range _ => inferInstanceAs (Decidable (range.Fits ∧ _ < _))
  | .outsideDiagnostic range allowed => inferInstanceAs (Decidable (range.Fits ∧ allowed.Fits))
  | .overlapping first second => inferInstanceAs (Decidable (first.Fits ∧ second.Fits))

/-- Two members of different names, each of its own type. The errors that name two ranges, or a
range and a length, are written in this way. -/
theorem conveys_pair {α β : Type} (first second : String) {encode : α → Json}
    {encode' : β → Json} {decode : Json → Option α} {decode' : Json → Option β} {a : α} {b : β}
    (hnames : first ≠ second) (ha : Conveys encode decode a a) (hb : Conveys encode' decode' b b) :
    Conveys (fun p : α × β => .object [(first, encode p.1), (second, encode' p.2)])
      (pairOfJson? first second decode decode') (a, b) (a, b) := by
  refine ⟨.object ?_, ?_⟩
  · simp [ha.plain, hb.plain]
  · simp [pairOfJson?, Json.fields?, Json.field?, Json.valuesOf, hnames, hnames.symm, ha.read,
      hb.read]

/-- What belongs to a fault is the value of the one member of a record. -/
theorem plain_tagged {name : String} {j : Json} (h : j.Plain) : (Json.object [(name, j)]).Plain :=
  .object (by simpa using h)

/-- A fault is read back with what belongs to it. One without any data is a string, and the others
are records with one member, whose name says which fault it is. -/
theorem conveys {e : FixError} (h : e.Fits) : Conveys toJson ofJson? e e := by
  cases e with
  | empty => exact ⟨.string _, rfl⟩
  | unknownDiagnostic position =>
      have hposition := conveys_nat h
      exact ⟨plain_tagged hposition.plain, by simp [toJson, ofJson?, hposition.read]⟩
  | inverted range =>
      have hrange := TextRange.conveys h
      exact ⟨plain_tagged hrange.plain, by simp [toJson, ofJson?, hrange.read]⟩
  -- The last three faults have two members each.
  | outOfBounds range length =>
      have hpair := conveys_pair "range" "len" (by decide)
        (TextRange.conveys h.1) (conveys_nat h.2)
      exact ⟨plain_tagged hpair.plain, by simp [toJson, ofJson?, hpair.read]⟩
  | outsideDiagnostic range allowed =>
      have hpair := conveys_pair "range" "allowed" (by decide)
        (TextRange.conveys h.1) (TextRange.conveys h.2)
      exact ⟨plain_tagged hpair.plain, by simp [toJson, ofJson?, hpair.read]⟩
  | overlapping first second =>
      have hpair := conveys_pair "first" "second" (by decide)
        (TextRange.conveys h.1) (TextRange.conveys h.2)
      exact ⟨plain_tagged hpair.plain, by simp [toJson, ofJson?, hpair.read]⟩

end FixError

namespace Rejection

/-- Only an error has numbers. -/
def Fits : Rejection → Prop
  | .invalid error => error.Fits
  | .conflict _ => True
  | .risky => True

instance : (r : Rejection) → Decidable r.Fits
  | .invalid error => inferInstanceAs (Decidable error.Fits)
  | .conflict _ => inferInstanceAs (Decidable True)
  | .risky => inferInstanceAs (Decidable True)

/-- The reason for a rejection is read back. Its kind is one of its members, and what else is in the
record depends on the kind. -/
theorem conveys {r : Rejection} (h : r.Fits) : Conveys toJson ofJson? r r := by
  -- The kind is taken out of the record before the rest of it is read.
  cases r with
  | invalid error =>
      have herror := FixError.conveys h
      refine ⟨.object (by simp [herror.plain, Json.Plain.string]), ?_⟩
      simp [toJson, ofJson?, Json.field?, Json.valuesOf, ofKind?, memberOfJson?, Json.fields?,
        Json.asString?, herror.read]
  | conflict label =>
      refine ⟨.object (by simp [Json.Plain.string]), ?_⟩
      simp [toJson, ofJson?, Json.field?, Json.valuesOf, ofKind?, memberOfJson?, Json.fields?,
        Json.asString?]
  | risky =>
      refine ⟨.object (by simp [Json.Plain.string]), ?_⟩
      simp [toJson, ofJson?, Json.field?, Json.valuesOf, ofKind?, Json.asString?]

end Rejection

namespace RejectedFix

/-- The proposal and the reason fit. -/
def Fits (r : RejectedFix) : Prop := r.proposal.Fits ∧ r.reason.Fits

instance (r : RejectedFix) : Decidable r.Fits :=
  inferInstanceAs (Decidable (r.proposal.Fits ∧ r.reason.Fits))

/-- A rejected proposal goes with its reason. -/
theorem conveys {r : RejectedFix} (h : r.Fits) : Conveys toJson ofJson? r r := by
  have hproposal := Proposal.conveys h.1
  have hreason := Rejection.conveys h.2
  refine ⟨.object (by simp [hproposal.plain, hreason.plain]), ?_⟩
  simp [ofJson?, toJson, Json.fields?, Json.field?, Json.valuesOf, hproposal.read, hreason.read]

end RejectedFix

namespace Resolution

/-- What was accepted and what was rejected fits. -/
def Fits (r : Resolution) : Prop := (∀ p ∈ r.accepted, p.Fits) ∧ ∀ x ∈ r.rejected, x.Fits

instance (r : Resolution) : Decidable r.Fits :=
  inferInstanceAs (Decidable ((∀ p ∈ r.accepted, p.Fits) ∧ ∀ x ∈ r.rejected, x.Fits))

/-- What was accepted and what was rejected are read back in their order. -/
theorem conveys {r : Resolution} (h : r.Fits) : Conveys toJson ofJson? r r := by
  have haccepted := conveys_list_self fun p hp => Proposal.conveys (h.1 p hp)
  have hrejected := conveys_list_self fun x hx => RejectedFix.conveys (h.2 x hx)
  refine ⟨.object (by simp [haccepted.plain, hrejected.plain]), ?_⟩
  simp [ofJson?, toJson, Json.fields?, Json.field?, Json.valuesOf, haccepted.read, hrejected.read]

end Resolution

/-! ### Results -/

namespace WalkStats

/-- Counts of 64 bits. -/
def Fits (s : WalkStats) : Prop :=
  s.nodes < Nat.pow 2 64 ∧ s.invocations < Nat.pow 2 64 ∧ s.failedRules < Nat.pow 2 64

instance (s : WalkStats) : Decidable s.Fits := inferInstanceAs (Decidable (_ ∧ _ ∧ _))

/-- The three counts of a walk are read back. -/
theorem conveys {s : WalkStats} (h : s.Fits) : Conveys toJson ofJson? s s := by
  have hnodes := conveys_nat h.1
  have hinvocations := conveys_nat h.2.1
  have hfailedRules := conveys_nat h.2.2
  refine ⟨.object (by simp [hnodes.plain, hinvocations.plain, hfailedRules.plain]), ?_⟩
  simp [ofJson?, toJson, Json.fields?, Json.field?, Json.valuesOf, hnodes.read, hinvocations.read,
    hfailedRules.read]

end WalkStats

namespace FixOutcome

/-- What became of the proposals fits, and so do the edits. -/
def Fits (o : FixOutcome) : Prop := o.resolution.Fits ∧ ∀ e ∈ o.edits, e.Fits

instance (o : FixOutcome) : Decidable o.Fits :=
  inferInstanceAs (Decidable (o.resolution.Fits ∧ ∀ e ∈ o.edits, e.Fits))

/-- The outcome less the new text. -/
def withoutText (o : FixOutcome) : FixOutcome := { o with fixed := none }

/-- The new text is not written, so it cannot be read. -/
theorem conveys {o : FixOutcome} (h : o.Fits) : Conveys toJson ofJson? o o.withoutText := by
  have hresolution := Resolution.conveys h.1
  have hedits := conveys_list_self fun e he => Edit.conveys (h.2 e he)
  refine ⟨.object (by simp [hresolution.plain, hedits.plain]), ?_⟩
  simp [ofJson?, toJson, Json.fields?, Json.field?, Json.valuesOf, hresolution.read, hedits.read,
    withoutText]

end FixOutcome

namespace FileReport

/-- The diagnostics, the counts and the fix, if there is one, all fit. -/
def Fits (r : FileReport) : Prop :=
  (∀ d ∈ r.diagnostics, d.Fits) ∧ r.stats.Fits ∧ ∀ o ∈ r.fix, o.Fits

instance (r : FileReport) : Decidable r.Fits :=
  inferInstanceAs (Decidable ((∀ d ∈ r.diagnostics, d.Fits) ∧ r.stats.Fits ∧ ∀ o ∈ r.fix, o.Fits))

/-- The report less the new text of the file. -/
def withoutText (r : FileReport) : FileReport := { r with fix := r.fix.map FixOutcome.withoutText }

/-- A report is written without the new text of its file, so leaving it out beforehand makes no
difference. -/
theorem toJson_withoutText (r : FileReport) : r.withoutText.toJson = r.toJson := by
  obtain ⟨path, category, diagnostics, stats, fix⟩ := r
  cases fix <;> rfl

/-- The members of a written report; only the fix may be absent. -/
theorem fields?_toJson (r : FileReport) :
    r.toJson.fields? ["path", "category", "diagnostics", "stats", "fix"] =
      some [some (.string r.path), some r.category.toJson,
        some (.ofList Diagnostic.toJson r.diagnostics), some r.stats.toJson,
        r.fix.map FixOutcome.toJson] := by
  obtain ⟨path, category, diagnostics, stats, fix⟩ := r
  cases fix <;> simp [toJson, Json.fields?, Json.field?, Json.valuesOf]

/-- A report is read back less the new text, which comes from its outcome if there is one. Without
an outcome its member is left out, and the default is read in its place. -/
theorem conveys {r : FileReport} (h : r.Fits) : Conveys toJson ofJson? r r.withoutText := by
  obtain ⟨hdiagnostics, hstats, hfix⟩ := h
  have hdiagnostics := conveys_list_self fun d hd => Diagnostic.conveys (hdiagnostics d hd)
  have hstats := WalkStats.conveys hstats
  have hfix : ∀ o ∈ r.fix, Conveys FixOutcome.toJson FixOutcome.ofJson? o o.withoutText :=
    fun o ho => FixOutcome.conveys (hfix o ho)
  refine ⟨.object ?_, ?_⟩
  · simp only [List.forall_mem_append, List.forall_mem_cons]
    refine ⟨⟨.string _, r.category.conveys.plain, hdiagnostics.plain, hstats.plain, by simp⟩, ?_⟩
    cases hcase : r.fix with
    | none => simp
    | some outcome => simpa using (hfix outcome hcase).plain
  · -- The one member that may be missing.
    have hread : Json.withDefault none (Json.asOption? FixOutcome.ofJson?)
        (r.fix.map FixOutcome.toJson) = some (r.fix.map FixOutcome.withoutText) := by
      cases hcase : r.fix with
      | none => rfl
      | some outcome =>
          show (FixOutcome.ofJson? outcome.toJson).map some = some (some outcome.withoutText)
          rw [(hfix outcome hcase).read, Option.map_some]
    simp [ofJson?, fields?_toJson, r.category.conveys.read, hdiagnostics.read, hstats.read, hread,
      Json.asString?, withoutText]

end FileReport

/-- A failure is two strings. -/
theorem FileFailure.conveys (f : FileFailure) : Conveys toJson ofJson? f f := by
  refine ⟨.object (by simp [Json.Plain.string]), ?_⟩
  simp [ofJson?, toJson, Json.fields?, Json.field?, Json.valuesOf, Json.asString?]

namespace BatchResult

/-- Every report fits, and the number of files has 64 bits. Failures hold texts only. -/
def Fits (r : BatchResult) : Prop :=
  (∀ report ∈ r.reports, report.Fits) ∧ r.filesChecked < Nat.pow 2 64

instance (r : BatchResult) : Decidable r.Fits :=
  inferInstanceAs (Decidable ((∀ report ∈ r.reports, report.Fits) ∧ _))

/-- The result less the new texts of all files. -/
def withoutTexts (r : BatchResult) : BatchResult :=
  { r with reports := r.reports.map FileReport.withoutText }

/-- The same for all reports of a batch. -/
theorem toJson_withoutTexts (r : BatchResult) : r.withoutTexts.toJson = r.toJson := by
  have hreports : r.reports.map (FileReport.toJson ∘ FileReport.withoutText) =
      r.reports.map FileReport.toJson :=
    List.map_congr_left fun report _ => report.toJson_withoutText
  simp [toJson, withoutTexts, Json.ofList, hreports]

/-- The result for a batch is read back less the new texts. The reports change in reading and
everything else does not. -/
theorem conveys {r : BatchResult} (h : r.Fits) : Conveys toJson ofJson? r r.withoutTexts := by
  have hreports := conveys_list fun report hreport => FileReport.conveys (h.1 report hreport)
  have hfailures := conveys_list_self fun f (_ : f ∈ r.failures) => FileFailure.conveys f
  have hfilesChecked := conveys_nat h.2
  have hcancelled := conveys_bool r.cancelled
  refine ⟨.object ?_, ?_⟩
  · simp [hreports.plain, hfailures.plain, hfilesChecked.plain, hcancelled.plain]
  · simp [ofJson?, toJson, Json.fields?, Json.field?, Json.valuesOf, hreports.read,
      hfailures.read, hfilesChecked.read, hcancelled.read, withoutTexts]

/-- A result written as JSON, on one line, indented, or in any other layout, is read back in full
but for the new texts of fixed files. So what was read is written as the same JSON again. Numbers
have to fit the widths that are read, and nothing else is asked of the result. -/
theorem json_keeps_all_but_fixed {r : BatchResult} (h : r.Fits) :
    (∀ text : String, text = r.toJson.render ∨ text = r.toJson.renderPretty ∨
        Json.Spaced r.toJson.tokens text.toList →
      (Json.read? text).bind ofJson? = some r.withoutTexts) ∧
    r.withoutTexts.toJson = r.toJson := by
  have hconveys := conveys h
  refine ⟨fun text htext => ?_, toJson_withoutTexts r⟩
  have hspaced : Json.Spaced r.toJson.tokens text.toList := by
    obtain rfl | rfl | hspaced := htext
    · exact hconveys.plain.spaced_render
    · exact hconveys.plain.spaced_renderPretty
    · exact hspaced
  rw [hconveys.plain.read?_eq hspaced, Option.bind_some, hconveys.read]

/-- A cancelled batch with a file that was fixed, one that was left alone and one that could not be
analyzed: every reason for a rejection with every fault of a proposal, diagnostics of every
severity and both kinds with and without a correction, the largest numbers and the lowest
priority. -/
def assorted : BatchResult :=
  let widest : TextRange := ⟨18446744073709551615, 0⟩
  let spot : TextRange := ⟨3, 8⟩
  let fix : Proposal := { edits := [⟨spot, "\"\\\n"⟩, ⟨widest, ""⟩], label := "é😀" }
  let risky : Proposal :=
    { diagnostic := 18446744073709551615, priority := -2147483648, edits := [], label := "",
      safety := .risky }
  { reports := [
      { path := "src/lib.rs", category := .source
        diagnostics := [
          { code := "TL001", rule := "unwrap", severity := .error, range := spot
            location := ⟨1, 4, 18446744073709551615, 9⟩, message := "m", correction := some ""
            kind := .finding },
          { code := "", rule := "", severity := .warning, range := widest, location := {}
            message := "\x00\t", correction := none, kind := .internalError },
          { code := "TL005", rule := "r", severity := .info, range := spot, location := {}
            message := "m", correction := none, kind := .finding }]
        stats := ⟨18446744073709551615, 7, 1⟩
        fix := some {
          resolution := {
            accepted := [fix]
            rejected := [⟨risky, .risky⟩, ⟨fix, .conflict "é😀"⟩, ⟨risky, .invalid .empty⟩,
              ⟨fix, .invalid (.unknownDiagnostic 9)⟩, ⟨fix, .invalid (.inverted widest)⟩,
              ⟨fix, .invalid (.outOfBounds widest 18446744073709551615)⟩,
              ⟨fix, .invalid (.outsideDiagnostic spot widest)⟩,
              ⟨fix, .invalid (.overlapping spot widest)⟩] }
          edits := fix.edits
          fixed := some "fixed" } },
      { path := "", category := .test, diagnostics := [] }]
    failures := [⟨"a b.rs", "no such file"⟩]
    filesChecked := 3
    cancelled := true }

/-- Everything about that result but the new text comes back, so what is read is not the result
itself. -/
theorem json_keeps_all_but_fixed_assorted :
    assorted.Fits ∧ assorted.withoutTexts ≠ assorted ∧
      (∀ text : String, text = assorted.toJson.render ∨ text = assorted.toJson.renderPretty ∨
          Json.Spaced assorted.toJson.tokens text.toList →
        (Json.read? text).bind ofJson? = some assorted.withoutTexts) ∧
      assorted.withoutTexts.toJson = assorted.toJson :=
  have h : assorted.Fits := by decide
  ⟨h, by decide, json_keeps_all_but_fixed h⟩

end BatchResult

end Arborist
