import Arborist.Proofs.Fix.Locality
import Mathlib.Algebra.Order.Ring.Nat
import Mathlib.Data.List.Chain

/-!
# `Arborist.Proofs.Fix.Script`: a script in one pass and edit by edit

The applier goes through a text once, from the left, with a cursor that never goes back. Two other
descriptions of the same thing do without the cursor. `Edit.Applicable` says which scripts there
are, as a condition on each edit and on each pair of neighbours. `Edit.splice` replaces one byte
range and knows nothing of scripts; making the edits of a script with it, the last one first, leaves
the offsets of the earlier ones alone.

`applyEdits_eq_ok_iff_applicable` ties them together: the applier takes exactly the applicable
scripts, and what it makes of the text is what splicing makes of its bytes.
-/

set_option autoImplicit false

namespace Arborist

open Text

namespace Text

/-- Between characters is where a string can be split. The library has its own notion of such a
place, and `Edit.Applicable` is stated with that one. -/
theorem isBoundary_iff_isValid {text : String} {offset : Nat} :
    isBoundary text offset = true ↔ String.Pos.Raw.IsValid text ⟨offset⟩ := by
  rw [isBoundary_iff, String.Pos.Raw.isValid_iff_exists_append]
  constructor
  · rintro ⟨front, rest, hsplit, rfl⟩
    refine ⟨String.ofList front, String.ofList rest, ?_, ?_⟩
    · rw [← String.ofList_append, ← hsplit, String.ofList_toList]
    · rw [String.Pos.Raw.ext_iff, String.byteIdx_rawEndPos, ← byteLength_toList,
        String.toList_ofList]
  · rintro ⟨front, rest, rfl, hoffset⟩
    refine ⟨front.toList, rest.toList, String.toList_append, ?_⟩
    rw [byteLength_toList, ← String.byteIdx_rawEndPos, ← hoffset]

end Text

namespace Edit

/-- `next` may stand behind `previous` in a script: it starts no earlier than `previous` ends, and
not where `previous` starts. -/
def Apart (previous next : Edit) : Prop :=
  previous.range.stop ≤ next.range.start ∧ previous.range.start ≠ next.range.start

/-- A script for a text. Only neighbours are compared. -/
structure Applicable (source : String) (edits : List Edit) : Prop where
  ordered : ∀ edit ∈ edits, edit.range.start ≤ edit.range.stop
  bounded : ∀ edit ∈ edits, edit.range.stop ≤ source.utf8ByteSize
  /-- No edit splits a character. -/
  whole : ∀ edit ∈ edits, String.Pos.Raw.IsValid source ⟨edit.range.start⟩ ∧
    String.Pos.Raw.IsValid source ⟨edit.range.stop⟩
  apart : edits.IsChain Apart

/-- The bytes with the range of the edit replaced, whatever else is done to them. -/
def splice (edit : Edit) (bytes : List UInt8) : List UInt8 :=
  bytes.take edit.range.start ++ Text.bytes edit.replacement ++ bytes.drop edit.range.stop

/-! ### Which scripts are applied -/

/-- The test that the applier makes for neighbours. That they share no byte follows from the first
half of `Apart`. -/
theorem follows_iff {previous next : Edit} :
    follows previous.range next.range = true ↔ previous.Apart next := by
  simp only [follows, Bool.and_eq_true, decide_eq_true_eq, Bool.not_eq_true',
    TextRange.conflictsWith_eq_false_iff, Apart]
  constructor
  · rintro ⟨hstop, -, hne⟩
    exact ⟨hstop, hne⟩
  · rintro ⟨hstop, hne⟩
    exact ⟨hstop, fun _ => hstop, hne⟩

/-- A slice shows that its range cuts the text between characters. -/
theorem cuts_of_sliceChars {text : String} {range : TextRange} {middle : List Char}
    (h : sliceChars text.toList range.start range.stop = some middle) : range.Cuts text := by
  obtain ⟨front, back, hsplit, hstart, hstop⟩ := sliceChars_eq_some_iff.1 h
  refine ⟨by omega, isBoundary_iff.2 ⟨front, middle ++ back, ?_, hstart⟩,
    isBoundary_iff.2 ⟨front ++ middle, back, hsplit, ?_⟩⟩
  · rw [hsplit, List.append_assoc]
  · rw [byteLength_append, hstart, hstop]

/-- What the applier has checked once it is through: every edit cuts the text between characters,
and each lies apart from the one before it, which is `previous` for the first. -/
theorem cuts_and_apart_of_applyFrom {text : String} {previous : Option Edit} {edits : List Edit}
    {out : List Char} (h : applyFrom text.toList (previous.map (·.range)) edits = .ok out) :
    (∀ edit ∈ edits, edit.range.Cuts text) ∧ (previous.toList ++ edits).IsChain Apart := by
  induction edits generalizing previous out with
  | nil =>
      refine ⟨by simp, ?_⟩
      cases previous with
      | none => exact .nil
      | some p => exact .singleton p
  | cons edit edits ih =>
      simp only [applyFrom] at h
      split at h
      · cases h
      · rename_i hfollows
        split at h
        · rename_i kept cut hkept hcut
          cases hrest : applyFrom text.toList (some edit.range) edits with
          | error error =>
              rw [hrest] at h
              cases h
          | ok rest =>
              -- The rest is applied behind `edit`, which is the previous edit there.
              obtain ⟨hcuts, hchain⟩ := @ih (some edit) rest hrest
              refine ⟨List.forall_mem_cons.2 ⟨cuts_of_sliceChars hcut, hcuts⟩, ?_⟩
              cases previous with
              | none => exact hchain
              | some p =>
                  have hp : follows p.range edit.range = true := by
                    simpa [Option.filter] using hfollows
                  exact .cons_cons (follows_iff.1 hp) hchain
        · cases h

/-- Neighbours are enough: ranges that are not inverted and lie apart from their neighbours lie one
before the other, because `Before` is transitive. -/
theorem pairwise_before_of_apart {edits : List Edit}
    (hordered : ∀ edit ∈ edits, edit.range.start ≤ edit.range.stop)
    (hapart : edits.IsChain Apart) : edits.Pairwise fun a b => a.range.Before b.range := by
  have hchain : edits.IsChain fun a b => a.range.Before b.range := by
    refine hapart.imp_of_mem_imp fun a b ha _ hab => ?_
    have ha := hordered a ha
    obtain ⟨hstop, hne⟩ := hab
    exact ⟨hstop, by omega⟩
  have : Trans (fun a b : Edit => a.range.Before b.range)
      (fun a b : Edit => a.range.Before b.range) fun a b : Edit => a.range.Before b.range :=
    ⟨TextRange.Before.trans⟩
  exact hchain.pairwise

/-- The edits of an applicable script cut the text between characters. -/
theorem Applicable.cuts {source : String} {edits : List Edit} (h : Applicable source edits) :
    ∀ edit ∈ edits, edit.range.Cuts source := fun edit hedit =>
  ⟨h.ordered edit hedit, isBoundary_iff_isValid.2 (h.whole edit hedit).1,
    isBoundary_iff_isValid.2 (h.whole edit hedit).2⟩

/-- Edits that cut the text between characters, each apart from the next, are an applicable
script. -/
theorem applicable_of_cuts {source : String} {edits : List Edit}
    (hcuts : ∀ edit ∈ edits, edit.range.Cuts source) (hapart : edits.IsChain Apart) :
    Applicable source edits where
  ordered edit hedit := (hcuts edit hedit).ordered
  bounded edit hedit := le_of_isBoundary (hcuts edit hedit).stop
  whole edit hedit := ⟨isBoundary_iff_isValid.1 (hcuts edit hedit).start,
    isBoundary_iff_isValid.1 (hcuts edit hedit).stop⟩
  apart := hapart

end Edit

/-! ### What a script makes of a text -/

/-- Making edits from left to right comes to the same as splicing them in from right to left. An
edit that is spliced in changes no offset in front of it, so that the earlier edits still find their
places. -/
theorem Edited.encoded_eq_foldr_splice {offset : Nat} {text fixed front : List Char}
    {edits : List Edit} (h : Edited offset text edits fixed) (hfront : byteLength front = offset) :
    encoded (front ++ fixed) = edits.foldr Edit.splice (encoded (front ++ text)) := by
  induction h generalizing front with
  | keep => rfl
  | @replace offset kept removed rest fixed edit edits hstart hstop hrest ih =>
      -- The later edits are made; they left what comes in front of `rest` alone.
      have hlater : edits.foldr Edit.splice (encoded (front ++ (kept ++ removed ++ rest))) =
          encoded (front ++ kept) ++ (encoded removed ++ encoded fixed) := by
        have hend : byteLength (front ++ kept ++ removed) = edit.range.stop := by
          rw [byteLength_append, byteLength_append, hstop, hstart, hfront]
        have hmade := ih hend
        simp only [List.append_assoc, encoded_append] at hmade ⊢
        exact hmade.symm
      have hkept : (encoded (front ++ kept)).length = edit.range.start := by
        rw [length_encoded, byteLength_append, hstart, hfront]
      have hremoved : (encoded (front ++ kept) ++ encoded removed).length = edit.range.stop := by
        rw [List.length_append, hkept, length_encoded, hstop]
      rw [List.foldr_cons, hlater, Edit.splice, List.take_left' hkept,
        ← List.append_assoc (encoded (front ++ kept)) (encoded removed), List.drop_left' hremoved,
        bytes_eq_encoded]
      simp only [encoded_append, List.append_assoc]

/-- What is removed and what is put in account for the length of an edited text. It is written as a
sum on both sides, because lengths are natural numbers. -/
theorem Edited.byteLength_add_removed {offset : Nat} {text fixed : List Char} {edits : List Edit}
    (h : Edited offset text edits fixed) :
    byteLength fixed + (edits.map (·.range.length)).sum =
      byteLength text + (edits.map (·.replacement.utf8ByteSize)).sum := by
  induction h with
  | keep => simp
  | @replace offset kept removed rest fixed edit edits hstart hstop hrest ih =>
      have hlength : edit.range.length = byteLength removed := by
        rw [TextRange.length, hstop, Nat.add_sub_cancel_left]
      simp only [List.map_cons, List.sum_cons, byteLength_append, byteLength_toList, hlength]
      omega

/-- A script is applied in one pass as it is edit by edit. A script is applied exactly if each of
its edits replaces whole characters of the text, ends no later than the next one starts and does not
start where the next one does. The new text is what is left when the edits are spliced into the
bytes of the old one, each by itself, from the last to the first; its length is that of the old
text, less what the edits remove, plus what they put in. -/
theorem applyEdits_eq_ok_iff_applicable (source : String) (edits : List Edit) :
    ((∃ out, applyEdits source edits = .ok out) ↔ Edit.Applicable source edits) ∧
      ∀ out, applyEdits source edits = .ok out →
        bytes out = edits.foldr Edit.splice (bytes source) ∧
        out.utf8ByteSize + (edits.map (·.range.length)).sum =
          source.utf8ByteSize + (edits.map (·.replacement.utf8ByteSize)).sum := by
  refine ⟨⟨?_, fun h => ?_⟩, fun out hout => ?_⟩
  · rintro ⟨out, hout⟩
    cases hchars : Edit.applyFrom source.toList none edits with
    | error error =>
        rw [applyEdits, hchars] at hout
        cases hout
    | ok chars =>
        obtain ⟨hcuts, hapart⟩ := @Edit.cuts_and_apart_of_applyFrom source none edits chars hchars
        exact Edit.applicable_of_cuts hcuts hapart
  · exact applyEdits_eq_ok h.cuts (Edit.pairwise_before_of_apart h.ordered h.apart)
  · have hedited := edited_of_applyEdits hout
    -- Both facts follow from the description of the new text and need no further look at the
    -- applier.
    have hbytes := @Edited.encoded_eq_foldr_splice _ _ _ [] _ hedited rfl
    have hlength := hedited.byteLength_add_removed
    rw [byteLength_toList, byteLength_toList] at hlength
    rw [bytes_eq_encoded, bytes_eq_encoded]
    exact ⟨hbytes, hlength⟩

end Arborist
