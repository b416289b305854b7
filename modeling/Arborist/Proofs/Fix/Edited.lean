import Arborist.Proofs.Fix.Edit

/-!
# `Arborist.Proofs.Fix.Edited`: what a script leaves of a text

`Edited` says what it means to make edits, without a reference to the applier: the text is cut at
the ends of the ranges, what lies inside a range is replaced, and what lies between two ranges
stays. The applier makes edits in this sense (`edited_of_applyEdits`).

An edited text can be cut wherever no edit reaches across (`Edited.split`). So any part of the text
that no edit cuts into is still there, with the edits inside it made and no others
(`Edited.reappears`).
-/

set_option autoImplicit false

namespace Arborist

open Text

/-- `fixed` is `text`, which starts at byte `offset`, with the edits made from left to right. -/
inductive Edited : (offset : Nat) → (text : List Char) → List Edit → (fixed : List Char) →
    Prop where
  | keep (offset : Nat) (text : List Char) : Edited offset text [] text
  | replace {offset : Nat} {kept removed rest fixed : List Char} {edit : Edit} {edits : List Edit}
      (hstart : edit.range.start = offset + byteLength kept)
      (hstop : edit.range.stop = edit.range.start + byteLength removed)
      (hrest : Edited edit.range.stop rest edits fixed) :
      Edited offset (kept ++ removed ++ rest) (edit :: edits)
        (kept ++ edit.replacement.toList ++ fixed)

/-- The applier, from the end of the range `previous` on, makes the edits in the text behind it. The
induction is over the edits, for every front that has been dealt with so far. -/
theorem edited_of_applyFrom {source front text fixed : List Char} {previous : Option TextRange}
    {edits : List Edit} (hsource : source = front ++ text)
    (hfront : byteLength front = (previous.map (·.stop)).getD 0)
    (happly : Edit.applyFrom source previous edits = .ok fixed) :
    Edited ((previous.map (·.stop)).getD 0) text edits fixed := by
  induction edits generalizing front text fixed previous with
  | nil =>
      have hdrop : dropBytes source ((previous.map (·.stop)).getD 0) = some text :=
        dropBytes_eq_some_iff.2 ⟨front, hsource, hfront⟩
      rw [Edit.applyFrom, hdrop] at happly
      cases happly
      exact .keep _ _
  | cons edit edits ih =>
      simp only [Edit.applyFrom] at happly
      split at happly
      · cases happly
      · split at happly
        · rename_i kept removed hkept hremoved
          cases hrest : Edit.applyFrom source (some edit.range) edits with
          | error error =>
              rw [hrest] at happly
              cases happly
          | ok rest =>
              rw [hrest] at happly
              cases happly
              obtain ⟨front₁, back₁, hsplit₁, hfront₁, hstart⟩ := sliceChars_eq_some_iff.1 hkept
              obtain ⟨front₂, back₂, hsplit₂, hfront₂, hstop⟩ := sliceChars_eq_some_iff.1 hremoved
              -- Both slices are cut out of the text behind the front.
              obtain ⟨rfl, htext⟩ : front = front₁ ∧ text = kept ++ back₁ :=
                append_inj_of_byteLength_eq
                  (by rw [← hsource, hsplit₁, List.append_assoc]) (hfront.trans hfront₁.symm)
              obtain ⟨rfl, hback⟩ : front ++ kept = front₂ ∧ back₁ = removed ++ back₂ :=
                append_inj_of_byteLength_eq
                  (by rw [← hsplit₁, hsplit₂, List.append_assoc])
                  (by rw [byteLength_append, hfront₁, hfront₂, hstart])
              have hstopFront : byteLength (front ++ kept ++ removed) = edit.range.stop := by
                rw [byteLength_append, hfront₂, hstop]
              have hedited := @ih (front ++ kept ++ removed) back₂ rest (some edit.range) hsplit₂
                hstopFront hrest
              rw [htext, hback, ← List.append_assoc]
              exact .replace hstart.symm hstop.symm hedited
        · cases happly

/-- To apply a script is to make its edits. The run starts in front of the whole text with no edit
made, which is a case of `edited_of_applyFrom`. -/
theorem edited_of_applyEdits {source fixed : String} {edits : List Edit}
    (h : applyEdits source edits = .ok fixed) :
    Edited 0 source.toList edits fixed.toList := by
  rw [applyEdits] at h
  cases happly : Edit.applyFrom source.toList none edits with
  | error error =>
      rw [happly] at h
      cases h
  | ok out =>
      rw [happly] at h
      cases h
      rw [String.toList_ofList]
      exact @edited_of_applyFrom source.toList [] _ _ none _ rfl rfl happly

/-- Where no edit reaches across a place of the text, the edited text can be cut there too: the
edits before the place are made in the front, and those behind it in the back. -/
theorem Edited.split {offset : Nat} {front back fixed : List Char} {before after : List Edit}
    (h : Edited offset (front ++ back) (before ++ after) fixed)
    (hbefore : ∀ edit ∈ before, edit.range.stop ≤ offset + byteLength front)
    (hafter : ∀ edit ∈ after, offset + byteLength front ≤ edit.range.start) :
    ∃ front' back', fixed = front' ++ back' ∧ Edited offset front before front' ∧
      Edited (offset + byteLength front) back after back' := by
  induction before generalizing offset front fixed with
  | nil =>
      generalize htext : front ++ back = text at h
      cases h with
      | keep => exact ⟨front, back, htext.symm, .keep _ _, .keep _ _⟩
      | @replace _ kept removed rest fixed edit edits hstart hstop hrest =>
          -- The first edit starts behind the front, so the front is kept.
          have hle := hafter edit (by simp)
          have hsplit : front ++ back = kept ++ (removed ++ rest) := by
            rw [htext, List.append_assoc]
          obtain ⟨kept, rfl⟩ := append_of_byteLength_le hsplit (by omega)
          have hback : back = kept ++ removed ++ rest := by simpa using htext
          refine ⟨front, kept ++ edit.replacement.toList ++ fixed, by simp, .keep _ _, ?_⟩
          rw [hback]
          exact .replace (by rw [hstart, byteLength_append, Nat.add_assoc]) hstop hrest
  | cons edit before ih =>
      generalize htext : front ++ back = text at h
      cases h with
      | @replace _ kept removed rest fixed _ _ hstart hstop hrest =>
          have hle := hbefore edit (by simp)
          have hsplit : (kept ++ removed) ++ rest = front ++ back := htext.symm
          obtain ⟨front, rfl⟩ := append_of_byteLength_le hsplit (by rw [byteLength_append]; omega)
          have hend : edit.range.stop + byteLength front =
              offset + byteLength (kept ++ removed ++ front) := by
            simp only [byteLength_append]
            omega
          obtain rfl : rest = front ++ back := by simpa using htext.symm
          obtain ⟨front', back', rfl, hfront, hback⟩ := ih hrest
            (fun e he => hend ▸ hbefore e (by simp [he])) (fun e he => hend ▸ hafter e he)
          refine ⟨kept ++ edit.replacement.toList ++ front', back', by simp,
            .replace hstart hstop hfront, ?_⟩
          rw [← hend]
          exact hback

/-- Elements that come in front of all others can be taken out in front. The two parts then make up
the list as it was. -/
theorem filter_append_filter_not {α : Type} {l : List α} {p : α → Bool}
    (h : l.Pairwise fun a b => p b = true → p a = true) :
    l.filter p ++ l.filter (fun a => !p a) = l := by
  induction l with
  | nil => rfl
  | cons a l ih =>
      obtain ⟨hfirst, hrest⟩ := List.pairwise_cons.1 h
      by_cases ha : p a = true
      · rw [List.filter_cons_of_pos ha, List.filter_cons_of_neg (by simp [ha]), List.cons_append,
          ih hrest]
      · -- The first one is not taken out, so none behind it is.
        have hnone : ∀ b ∈ a :: l, ¬ p b = true :=
          List.forall_mem_cons.2 ⟨ha, fun b hb hp => ha (hfirst b hb hp)⟩
        rw [List.filter_eq_nil_iff.2 hnone, List.filter_eq_self.2 (by simpa using hnone),
          List.nil_append]

/-- The edit ends where the range starts or further left. An empty edit can do so and still lie
inside the range; it does not count. -/
def Edit.isBefore (range : TextRange) (edit : Edit) : Bool :=
  edit.range.stop ≤ range.start && !range.contains edit.range

/-- Edits that do not cut into a range come in three groups: those before it, those inside it, and
those behind it. An empty edit at the start of the range counts as inside. -/
theorem groups_of_uncut {edits : List Edit} {range : TextRange}
    (hordered : ∀ edit ∈ edits, edit.range.start ≤ edit.range.stop)
    (hbefore : edits.Pairwise fun a b => a.range.Before b.range)
    (huncut : ∀ edit ∈ edits, range.contains edit.range = true ∨
      edit.range.stop ≤ range.start ∨ range.stop ≤ edit.range.start) :
    ∃ before after,
      edits = before ++ ((edits.filter fun edit => range.contains edit.range) ++ after) ∧
      (∀ edit ∈ before, edit.range.stop ≤ range.start) ∧
      ∀ edit ∈ after, range.stop ≤ edit.range.start := by
  have hcontains : ∀ {r : TextRange}, range.contains r = true ↔
      range.start ≤ r.start ∧ r.stop ≤ range.stop := by
    simp [TextRange.contains]
  -- In front of an edit before the range there are only edits before the range.
  have hearly : edits.Pairwise fun a b => b.isBefore range = true → a.isBefore range = true := by
    refine hbefore.imp_of_mem fun {a b} _ hb hab hearly => ?_
    have hbOrdered := hordered b hb
    simp only [Edit.isBefore, Bool.and_eq_true, decide_eq_true_eq, Bool.not_eq_true',
      ← Bool.not_eq_true, hcontains] at hearly ⊢
    obtain ⟨hstop, hstart⟩ := hab
    omega
  have hlater : ∀ edit ∈ edits.filter (fun edit => !edit.isBefore range),
      range.contains edit.range = true ∨ range.stop ≤ edit.range.start := by
    intro edit hedit
    obtain ⟨hmem, hlate⟩ := List.mem_filter.1 hedit
    rcases huncut edit hmem with hinside | hstop | hbehind
    · exact .inl hinside
    · exact .inl (by simpa [Edit.isBefore, hstop] using hlate)
    · exact .inr hbehind
  -- Of the rest, those inside the range come first.
  have hinside : (edits.filter fun edit => !edit.isBefore range).Pairwise fun a b =>
      range.contains b.range = true → range.contains a.range = true := by
    refine (hbefore.filter _).imp_of_mem fun {a b} ha hb hab hb' => ?_
    have hbOrdered := hordered b (List.mem_filter.1 hb).1
    refine (hlater a ha).resolve_right fun hbehind => ?_
    rw [hcontains] at hb'
    obtain ⟨hstop, hstart⟩ := hab
    omega
  have hfilter : (edits.filter fun edit => !edit.isBefore range).filter
      (fun edit => range.contains edit.range) =
      edits.filter fun edit => range.contains edit.range := by
    rw [List.filter_filter]
    congr 1
    funext edit
    cases hin : range.contains edit.range <;> simp [Edit.isBefore, hin]
  refine ⟨edits.filter (·.isBefore range),
    (edits.filter fun edit => !edit.isBefore range).filter fun edit => !range.contains edit.range,
    ?_, fun edit hedit => ?_, fun edit hedit => ?_⟩
  · rw [← hfilter, filter_append_filter_not hinside, filter_append_filter_not hearly]
  · have hstop := (List.mem_filter.1 hedit).2
    simp only [Edit.isBefore, Bool.and_eq_true, decide_eq_true_eq] at hstop
    exact hstop.1
  · obtain ⟨hlate, hout⟩ := List.mem_filter.1 hedit
    exact (hlater edit hlate).resolve_left (by simpa using hout)

/-- A part of a text that no edit cuts into is still there in the edited text, with the edits inside
it made and no others. Where it stands there is not said; edits in front of it may have moved it. -/
theorem Edited.reappears {source fixed original : List Char} {edits : List Edit} {range : TextRange}
    (h : Edited 0 source edits fixed)
    (hordered : ∀ edit ∈ edits, edit.range.start ≤ edit.range.stop)
    (hbefore : edits.Pairwise fun a b => a.range.Before b.range)
    (horiginal : sliceChars source range.start range.stop = some original)
    (huncut : ∀ edit ∈ edits, range.contains edit.range = true ∨
      edit.range.stop ≤ range.start ∨ range.stop ≤ edit.range.start) :
    ∃ front text back, fixed = front ++ text ++ back ∧
      Edited range.start original (edits.filter fun edit => range.contains edit.range) text := by
  obtain ⟨front, back, rfl, hfront, hback⟩ := sliceChars_eq_some_iff.1 horiginal
  obtain ⟨before, after, hgroups, hearly, hlate⟩ := groups_of_uncut hordered hbefore huncut
  have hinside : ∀ edit ∈ edits.filter (fun edit => range.contains edit.range),
      range.start ≤ edit.range.start ∧ edit.range.stop ≤ range.stop := by
    intro edit hedit
    simpa [TextRange.contains] using (List.mem_filter.1 hedit).2
  generalize edits.filter (fun edit => range.contains edit.range) = inside at hgroups hinside ⊢
  rw [hgroups, List.append_assoc] at h
  -- Cut at the start of the range, then at its end.
  obtain ⟨front', rest, rfl, -, hrest⟩ := h.split
    (fun edit hedit => by have := hearly edit hedit; omega)
    (fun edit hedit => by
      rcases List.mem_append.1 hedit with hedit | hedit
      · have := hinside edit hedit; omega
      · have := hlate edit hedit; omega)
  obtain ⟨text, back', rfl, htext, -⟩ := hrest.split
    (fun edit hedit => by have := hinside edit hedit; omega)
    (fun edit hedit => by have := hlate edit hedit; omega)
  rw [Nat.zero_add, hfront] at htext
  exact ⟨front', text, back', by simp, htext⟩

end Arborist
