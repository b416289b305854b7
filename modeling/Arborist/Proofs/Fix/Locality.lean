import Arborist.Proofs.Fix.Edited
import Arborist.Proofs.Fix.Outcome
import Arborist.Proofs.Text.LineIndex
import Arborist.Proofs.Text.Lines

/-!
# `Arborist.Proofs.Fix.Locality`: fixes stay near their findings

A finding has a window: its range and some bytes more on both sides, as far as the text goes. What
the resolver accepts was proposed for a finding of the report and has edits, all of them inside the
window (`Resolver.inWindow_of_mem_accepted`, `Engine.finding_of_mem_proposals`). So there is a new
text exactly if something was accepted, and the new text differs from the old one inside the windows
only.

A window may start or end inside a character, since only edits are asked to fall between characters.
What lies outside all windows is therefore compared byte by byte. `Edited.frame` says that an edited
text begins with the bytes in front of all edits and ends with the bytes behind them, and
`fix_is_local` puts everything together.
-/

set_option autoImplicit false

namespace Arborist

/-! ### Bytes of an edited text -/

namespace Text

/-- The bytes of a text. -/
def bytes (text : String) : List UInt8 := text.toUTF8.data.toList

/-- The bytes of a run of characters. -/
def encoded (cs : List Char) : List UInt8 := cs.flatMap String.utf8EncodeChar

/-- The bytes of a text are those of its characters, one after the other. -/
theorem bytes_eq_encoded (text : String) : bytes text = encoded text.toList :=
  toUTF8_data_toList text

/-- The bytes of two runs of characters, one behind the other. -/
@[simp] theorem encoded_append (cs ds : List Char) :
    encoded (cs ++ ds) = encoded cs ++ encoded ds := List.flatMap_append

/-- The number of bytes of a run of characters is its byte length, as offsets count it. -/
@[simp] theorem length_encoded (cs : List Char) : (encoded cs).length = byteLength cs := by
  induction cs with
  | nil => rfl
  | cons c cs ih =>
      rw [encoded, List.flatMap_cons, List.length_append, String.length_utf8EncodeChar,
        byteLength_cons, ← ih, encoded]

/-- What is behind the first part of a text is found in the second part. -/
theorem drop_encoded_append {cs ds : List Char} {n : Nat} (h : byteLength cs ≤ n) :
    (encoded (cs ++ ds)).drop n = (encoded ds).drop (n - byteLength cs) := by
  rw [encoded_append, List.drop_append, length_encoded,
    List.drop_eq_nil_of_le (by rwa [length_encoded]), List.nil_append]

end Text

open Text

/-- An edited text ends with the bytes behind all edits. They are counted from the start of the
whole text, which begins `offset` bytes before the part that is edited here. -/
theorem Edited.exists_append_drop {offset limit : Nat} {text fixed : List Char} {edits : List Edit}
    (h : Edited offset text edits fixed) (hlimit : ∀ edit ∈ edits, edit.range.stop ≤ limit) :
    ∃ front, encoded fixed = front ++ (encoded text).drop (limit - offset) := by
  induction h with
  | keep offset text => exact ⟨_, (List.take_append_drop _ _).symm⟩
  | @replace offset kept removed rest fixed edit edits hstart hstop hrest ih =>
      obtain ⟨front, hfront⟩ := ih fun e he => hlimit e (by simp [he])
      -- The limit is behind this edit, so it is in `rest`, counted from where the edit ends.
      have hle := hlimit edit (by simp)
      refine ⟨encoded kept ++ encoded edit.replacement.toList ++ front, ?_⟩
      rw [drop_encoded_append (by rw [byteLength_append]; omega), encoded_append, encoded_append,
        hfront, byteLength_append,
        show limit - offset - (byteLength kept + byteLength removed) =
          limit - edit.range.stop by omega]
      simp

/-- An edited text begins with the bytes in front of all edits and ends with the bytes behind them.
The two places may fall inside characters, hence bytes. -/
theorem Edited.frame {start stop : Nat} {text fixed : List Char} {edits : List Edit}
    (h : Edited 0 text edits fixed) (hsome : edits ≠ [])
    (hstart : ∀ edit ∈ edits, start ≤ edit.range.start)
    (hstop : ∀ edit ∈ edits, edit.range.stop ≤ stop) :
    ∃ middle, encoded fixed = (encoded text).take start ++ middle ++ (encoded text).drop stop := by
  cases h with
  | keep => exact absurd rfl hsome
  | @replace _ kept removed rest fixed edit edits hfirst hlast hrest =>
      have hkept : start ≤ byteLength kept := by
        have := hstart edit (by simp)
        omega
      obtain ⟨front, hfront⟩ := hrest.exists_append_drop fun e he => hstop e (by simp [he])
      have hle := hstop edit (by simp)
      -- The first edit decides where the text begins to differ, and what comes behind all edits is
      -- `hrest`.
      refine ⟨(encoded kept).drop start ++ encoded edit.replacement.toList ++ front, ?_⟩
      have hbegin : (encoded (kept ++ removed ++ rest)).take start = (encoded kept).take start := by
        rw [List.append_assoc, encoded_append, List.take_append_of_le_length (by simpa using hkept)]
      have hend : (encoded (kept ++ removed ++ rest)).drop stop =
          (encoded rest).drop (stop - edit.range.stop) := by
        rw [drop_encoded_append (by rw [byteLength_append]; omega), byteLength_append,
          show byteLength kept + byteLength removed = edit.range.stop by omega]
      rw [hbegin, hend, encoded_append, encoded_append, hfront]
      simp only [← List.append_assoc, List.take_append_drop]

/-! ### Windows -/

/-- Where the edits for a diagnostic may lie: its range and `slack` bytes more on both sides, as far
as the text goes. Offsets have 64 bits and do not wrap around. -/
def Diagnostic.window (slack : Nat) (source : String) (d : Diagnostic) : TextRange :=
  ⟨d.range.start - slack, min (min (d.range.stop + slack) (Nat.pow 2 64 - 1)) source.utf8ByteSize⟩

/-- The window is the range that the check of proposals allows. -/
theorem Diagnostic.expand_eq_window (slack : Nat) (source : String) (d : Diagnostic) :
    d.range.expand slack (byteLength source.toList) = d.window slack source := by
  rw [byteLength_toList]
  rfl

/-- The range is not inverted and lies inside the window. -/
structure TextRange.Within (window range : TextRange) : Prop where
  start : window.start ≤ range.start
  ordered : range.start ≤ range.stop
  stop : range.stop ≤ window.stop

/-- A proposal that passes its check has edits, all inside the allowed range, and stays with its
diagnostic. The check has put them in order, which moves none of them out of the range. -/
theorem Proposal.inside_of_validate {p : Proposal} {slack : Nat} {range : TextRange}
    {source : String} (h : (p.validate slack range source).2 = none) :
    (p.validate slack range source).1.diagnostic = p.diagnostic ∧
      (p.validate slack range source).1.edits ≠ [] ∧
      ∀ edit ∈ (p.validate slack range source).1.edits,
        (range.expand slack (byteLength source.toList)).Within edit.range := by
  obtain ⟨hsome, hfaults, -⟩ := validate_eq_none_iff.1 h
  rw [validate_eq_sorted h]
  refine ⟨rfl, fun hnil => hsome ?_, fun edit hedit => ?_⟩
  · -- Sorting neither adds nor removes edits.
    have hperm := Edit.sort_perm p.edits
    rw [show Edit.sort p.edits = [] from hnil] at hperm
    exact hperm.nil_eq.symm
  · obtain ⟨hcuts, hinside⟩ := cuts_of_editFault (hfaults edit (Edit.mem_sort.1 hedit))
    rw [TextRange.contains_iff] at hinside
    exact ⟨hinside.1, hcuts.ordered, hinside.2⟩

namespace Resolver

variable {r : Resolver} {diagnostics : List Diagnostic} {source : String} {p : Proposal}

/-- A proposal that is not thrown out has edits, all inside the window of its diagnostic. It has a
diagnostic, because a proposal for none is thrown out first. -/
theorem inWindow_of_judge (h : (r.judge diagnostics source p).2 = none) :
    (r.judge diagnostics source p).1.diagnostic = p.diagnostic ∧
      (r.judge diagnostics source p).1.edits ≠ [] ∧
      ∃ d, diagnostics[p.diagnostic]? = some d ∧
        ∀ edit ∈ (r.judge diagnostics source p).1.edits,
          (d.window r.slack source).Within edit.range := by
  simp only [judge] at h ⊢
  split at h
  · cases h
  · rename_i d hd
    split at h
    · cases h
    · rename_i hsafe
      rw [if_neg hsafe]
      obtain ⟨hsame, hedits, hinside⟩ :=
        Proposal.inside_of_validate (Option.map_eq_none_iff.1 h)
      -- What the check allows is the range of the diagnostic with the slack around it.
      rw [Diagnostic.expand_eq_window] at hinside
      exact ⟨hsame, hedits, d, hd, hinside⟩

/-- An accepted proposal was proposed for its diagnostic and has edits, all inside the window. It
passed its check, which looks at each of its edits. -/
theorem inWindow_of_mem_accepted {proposals : List Proposal}
    (h : p ∈ (r.resolve proposals diagnostics source).accepted) :
    (∃ q ∈ proposals, q.diagnostic = p.diagnostic) ∧ p.edits ≠ [] ∧
      ∃ d, diagnostics[p.diagnostic]? = some d ∧
        ∀ edit ∈ p.edits, (d.window r.slack source).Within edit.range := by
  obtain ⟨q, hq, hjudge⟩ := judge_of_mem_accepted h
  obtain ⟨hsame, hedits, d, hd, hinside⟩ := inWindow_of_judge (by rw [hjudge])
  rw [hjudge] at hsame hedits hinside
  exact ⟨⟨q, hq, hsame.symm⟩, hedits, d, hsame ▸ hd, hinside⟩

end Resolver

/-- Proposals are made for findings of the report. Failures of rules are diagnostics too, but no
rule is asked about them. -/
theorem Engine.finding_of_mem_proposals {e : Engine} {file : SourceFile} {tree : SyntaxTree}
    {report : FileReport} {p : Proposal} (h : p ∈ e.proposals file tree report) :
    ∃ d, report.diagnostics[p.diagnostic]? = some d ∧ d.isFinding = true := by
  obtain ⟨⟨d, position⟩, hd, hp⟩ := List.mem_flatMap.1 h
  dsimp only at hp
  split at hp
  · rename_i hfinding
    split at hp
    · obtain ⟨q, -, rfl⟩ := List.mem_map.1 hp
      exact ⟨d, List.mem_zipIdx_iff_getElem?.1 hd, hfinding⟩
    · cases hp
  · cases hp

/-! ### The outcome -/

/-- The text is the source of the file with edits near findings of the report made, and nothing else
changed. -/
structure FixOutcome.Local (slack : Nat) (source : String) (report : FileReport)
    (outcome : FixOutcome) (text : String) : Prop where
  /-- Every edit belongs to an accepted proposal for a finding and lies in its window. -/
  edits : ∀ edit ∈ outcome.edits, ∃ p ∈ outcome.resolution.accepted, edit ∈ p.edits ∧
    ∃ d, report.diagnostics[p.diagnostic]? = some d ∧ d.isFinding = true ∧
      (d.window slack source).Within edit.range
  /-- The source is cut at the ends of the edits. What lies between them is kept, in order, and the
  rest is replaced. -/
  edited : Edited 0 source.toList outcome.edits text.toList
  /-- The text begins with the bytes in front of all windows and ends with the bytes behind them. -/
  frame : ∀ start stop : Nat,
    (∀ p ∈ outcome.resolution.accepted, ∀ d, report.diagnostics[p.diagnostic]? = some d →
      start ≤ (d.window slack source).start ∧ (d.window slack source).stop ≤ stop) →
    ∃ middle, bytes text = (bytes source).take start ++ middle ++ (bytes source).drop stop

namespace Engine.Fixes

variable {e : Engine} {file : SourceFile} {tree : SyntaxTree} {report : FileReport}
  {allowRisky : Bool} {outcome : FixOutcome}

/-- An accepted proposal has edits, all inside the window of a finding of the report. The engine
asks for proposals for findings only. -/
theorem inWindow (h : e.Fixes file tree report allowRisky outcome) {p : Proposal}
    (hp : p ∈ outcome.resolution.accepted) :
    p.edits ≠ [] ∧ ∃ d, report.diagnostics[p.diagnostic]? = some d ∧ d.isFinding = true ∧
      ∀ edit ∈ p.edits,
        (d.window e.config.analyzer.fixSlack file.content).Within edit.range := by
  rw [h.resolution] at hp
  obtain ⟨⟨q, hq, hsame⟩, hedits, d, hd, hinside⟩ := Resolver.inWindow_of_mem_accepted hp
  obtain ⟨d', hd', hfinding⟩ := finding_of_mem_proposals hq
  rw [hsame, hd] at hd'
  exact ⟨hedits, d, hd, Option.some.inj hd' ▸ hfinding, hinside⟩

/-- The edits made are those of the accepted proposals, all of them and no others. -/
theorem mem_edits_iff (h : e.Fixes file tree report allowRisky outcome) {edit : Edit} :
    edit ∈ outcome.edits ↔ ∃ p ∈ outcome.resolution.accepted, edit ∈ p.edits := by
  rw [h.edits, Resolution.script, Edit.mem_sort, List.mem_flatMap]

/-- There is a new text if something was accepted, since an accepted proposal has edits. Without
edits the text is left as it is, and no new one is kept. -/
theorem isSome_fixed_iff (h : e.Fixes file tree report allowRisky outcome) :
    outcome.fixed.isSome = true ↔ outcome.resolution.accepted ≠ [] := by
  rw [Option.isSome_iff_ne_none, ne_eq, h.unchanged]
  refine not_congr ⟨?_, ?_⟩
  · -- An accepted proposal has an edit, and its edits are all made.
    intro hnone
    refine List.eq_nil_iff_forall_not_mem.2 fun p hp => ?_
    obtain ⟨edit, hedit⟩ := List.exists_mem_of_ne_nil _ (h.inWindow hp).1
    have hmade := h.mem_edits_iff.2 ⟨p, hp, hedit⟩
    rw [hnone] at hmade
    cases hmade
  · intro hnone
    refine List.eq_nil_iff_forall_not_mem.2 fun edit hedit => ?_
    obtain ⟨p, hp, -⟩ := h.mem_edits_iff.1 hedit
    rw [hnone] at hp
    cases hp

end Engine.Fixes

/-- Fixes are local. Whatever the rules propose, every edit belongs to an accepted proposal for a
finding of the report and lies inside its window. The new text is the old one with the edits made in
their places and everything between them kept, so that it begins with what is in front of all
windows and ends with what is behind them. There is a new text if and only if a proposal was
accepted. -/
theorem fix_is_local (e : Engine) (file : SourceFile) (tree : SyntaxTree) (report : FileReport)
    (allowRisky : Bool) :
    ∃ outcome, e.fix file tree report allowRisky = .ok outcome ∧
      (outcome.fixed.isSome = true ↔ outcome.resolution.accepted ≠ []) ∧
      ∀ text, outcome.fixed = some text →
        outcome.Local e.config.analyzer.fixSlack file.content report text := by
  obtain ⟨outcome, h⟩ := e.exists_fixes file tree report allowRisky
  refine ⟨outcome, h.ok, h.isSome_fixed_iff, fun text htext => ?_⟩
  have hedited := edited_of_applyEdits (h.fixed text htext)
  -- A new text is kept only if there are edits.
  have hsome : outcome.edits ≠ [] := fun hnone => by
    rw [h.unchanged.2 hnone] at htext
    cases htext
  refine ⟨fun edit hedit => ?_, hedited, fun start stop hwindows => ?_⟩
  · obtain ⟨p, hp, hmem⟩ := h.mem_edits_iff.1 hedit
    obtain ⟨-, d, hd, hfinding, hinside⟩ := h.inWindow hp
    exact ⟨p, hp, hmem, d, hd, hfinding, hinside edit hmem⟩
  · have hbounds : ∀ edit ∈ outcome.edits, start ≤ edit.range.start ∧ edit.range.stop ≤ stop := by
      intro edit hedit
      obtain ⟨p, hp, hmem⟩ := h.mem_edits_iff.1 hedit
      obtain ⟨-, d, hd, -, hinside⟩ := h.inWindow hp
      obtain ⟨hstart, hstop⟩ := hwindows p hp d hd
      exact ⟨Nat.le_trans hstart (hinside edit hmem).start,
        Nat.le_trans (hinside edit hmem).stop hstop⟩
    -- What is in front of all windows is in front of all edits.
    rw [bytes_eq_encoded, bytes_eq_encoded]
    exact hedited.frame hsome (fun edit hedit => (hbounds edit hedit).1)
      fun edit hedit => (hbounds edit hedit).2

end Arborist
