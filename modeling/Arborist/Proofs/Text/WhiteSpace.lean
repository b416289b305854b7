import Arborist.Text.WhiteSpace

/-!
# `Arborist.Proofs.Text.WhiteSpace`: what cutting and trimming leave

What was cut off a text and what is left make up the text again. Each of the cuts of
`Arborist.Text.WhiteSpace` has its lemma here, in terms of `++`; what trimming takes off is `Blank`.
-/

set_option autoImplicit false

namespace Arborist.Text

/-- A beginning that is cut off stood in front of what is left. -/
theorem dropStart?_eq_some_iff {beginning cs rest : List Char} :
    dropStart? beginning cs = some rest ↔ cs = beginning ++ rest := by
  fun_induction dropStart? beginning cs with
  | case1 cs => simp
  | case2 b bs cs ih => simp [ih]
  | case3 b bs c cs hne => simp [Ne.symm hne]
  | case4 b bs => simp

/-- An ending that is cut off stood behind what is left. It is cut off as a beginning of the
reversed text, so this is `dropStart?_eq_some_iff` read backwards. -/
theorem dropEnd?_eq_some_iff {ending cs rest : List Char} :
    dropEnd? ending cs = some rest ↔ cs = rest ++ ending := by
  rw [dropEnd?, Option.map_eq_some_iff]
  constructor
  · rintro ⟨front, hfront, rfl⟩
    rw [dropStart?_eq_some_iff] at hfront
    have hcs := congrArg List.reverse hfront
    simpa using hcs
  · rintro rfl
    exact ⟨rest.reverse, dropStart?_eq_some_iff.2 (by simp), by simp⟩

/-- What is cut off again and again makes up the end of the text, however many steps are allowed.
The induction follows the cuts, the last of which is the one furthest left. -/
theorem eq_dropEndTimes_append (ending : List Char) (fuel : Nat) (cs : List Char) :
    ∃ times, cs = dropEndTimes ending fuel cs ++ (List.replicate times ending).flatten := by
  fun_induction dropEndTimes ending fuel cs with
  | case1 cs => exact ⟨0, by simp⟩
  | case2 fuel cs rest hcut ih =>
      obtain ⟨times, htimes⟩ := ih
      refine ⟨times + 1, ?_⟩
      rw [List.replicate_succ', List.flatten_append, List.flatten_singleton, ← List.append_assoc,
        ← htimes]
      exact dropEnd?_eq_some_iff.1 hcut
  | case3 fuel cs hcut => exact ⟨0, by simp⟩

/-- An ending is cut off as often as it is there, given enough steps. Then no further cut is
possible, by assumption. -/
theorem dropEndTimes_append_replicate {ending cs : List Char} (hcut : dropEnd? ending cs = none)
    {times fuel : Nat} (hfuel : times ≤ fuel) :
    dropEndTimes ending fuel (cs ++ (List.replicate times ending).flatten) = cs := by
  induction times generalizing fuel with
  | zero =>
      rw [List.replicate_zero, List.flatten_nil, List.append_nil]
      cases fuel with
      | zero => rfl
      | succ fuel => rw [dropEndTimes, hcut]
  | succ times ih =>
      obtain ⟨fuel, rfl⟩ : ∃ n, fuel = n + 1 := ⟨fuel - 1, by omega⟩
      rw [List.replicate_succ', List.flatten_append, List.flatten_singleton, ← List.append_assoc,
        dropEndTimes, dropEnd?_eq_some_iff.2 rfl]
      exact ih (Nat.le_of_succ_le_succ hfuel)

/-- Cutting off an ending as often as it is there leaves a text that does not end with it. There is
only one such text, since the number of cuts is determined. -/
theorem dropEndAll_eq_iff {ending cs rest : List Char} (hending : ending ≠ [])
    (hcut : dropEnd? ending rest = none) :
    dropEndAll ending cs = rest ↔ ∃ times, cs = rest ++ (List.replicate times ending).flatten := by
  constructor
  · rintro rfl
    exact eq_dropEndTimes_append ending cs.length cs
  · rintro ⟨times, rfl⟩
    refine dropEndTimes_append_replicate hcut ?_
    -- An ending that is not empty fits into the text no more often than the text is long.
    have hlength : 0 < ending.length := List.length_pos_iff.2 hending
    have hle : times ≤ times * ending.length := Nat.le_mul_of_pos_right times hlength
    rw [List.length_append, List.length_flatten, List.map_replicate, List.sum_replicate_nat]
    omega

/-- A text of white space only. -/
def Blank (cs : List Char) : Prop := ∀ c ∈ cs, isWhiteSpace c = true

instance (cs : List Char) : Decidable (Blank cs) :=
  List.decidableBAll _ cs

/-- Trimming at the start takes off white space. -/
theorem eq_blank_append_trimStart (cs : List Char) :
    ∃ blank, Blank blank ∧ cs = blank ++ trimStart cs :=
  ⟨cs.takeWhile isWhiteSpace, List.all_eq_true.1 List.all_takeWhile,
    List.takeWhile_append_dropWhile.symm⟩

/-- So does trimming at the end. -/
theorem eq_trimEnd_append_blank (cs : List Char) :
    ∃ blank, Blank blank ∧ cs = trimEnd cs ++ blank := by
  obtain ⟨blank, hblank, heq⟩ := eq_blank_append_trimStart cs.reverse
  refine ⟨blank.reverse, fun c hc => hblank c (List.mem_reverse.1 hc), ?_⟩
  rw [trimEnd, dropEndWhile, ← List.reverse_append]
  exact List.reverse_eq_iff.1 heq

/-- Trimming takes white space off both ends and nothing else. -/
theorem eq_blank_append_trim (cs : List Char) :
    ∃ left right, Blank left ∧ Blank right ∧ cs = left ++ trim cs ++ right := by
  obtain ⟨left, hleft, hcs⟩ := eq_blank_append_trimStart cs
  obtain ⟨right, hright, hrest⟩ := eq_trimEnd_append_blank (trimStart cs)
  exact ⟨left, right, hleft, hright, by rw [List.append_assoc, trim, ← hrest, ← hcs]⟩

/-- Nothing is left exactly if there was only white space. If nothing is left, then the text is what
was taken off its two ends. -/
theorem trim_eq_nil_iff {cs : List Char} : trim cs = [] ↔ Blank cs := by
  constructor
  · intro h
    obtain ⟨left, right, hleft, hright, hcs⟩ := eq_blank_append_trim cs
    rw [h, List.append_nil] at hcs
    intro c hc
    rw [hcs] at hc
    rcases List.mem_append.1 hc with hc | hc
    · exact hleft c hc
    · exact hright c hc
  · intro h
    have hstart : (cs ++ []).dropWhile isWhiteSpace = [] := List.dropWhile_append_of_pos h
    rw [List.append_nil] at hstart
    rw [trim, trimStart, hstart]
    rfl

/-- White space at the end does not survive trimming. If the text in front is blank, then this white
space goes with it at the start already. -/
theorem trim_concat {c : Char} (h : isWhiteSpace c = true) (cs : List Char) :
    trim (cs ++ [c]) = trim cs := by
  rw [trim, trim, trimStart, trimStart, List.dropWhile_append]
  split
  · rename_i hblank
    rw [List.isEmpty_iff.1 hblank]
    simp [h, trimEnd, dropEndWhile]
  · simp [h, trimEnd, dropEndWhile]

/-- A text is split at the first separator, so there is none in front of it. The separator itself is
in neither half. -/
theorem of_splitFirst? {sep : Char} {cs before after : List Char}
    (h : splitFirst? sep cs = some (before, after)) :
    cs = before ++ sep :: after ∧ sep ∉ before := by
  fun_induction splitFirst? sep cs generalizing before with
  | case1 => cases h
  | case2 cs =>
      cases h
      exact ⟨rfl, List.not_mem_nil⟩
  | case3 c cs hne ih =>
      obtain ⟨⟨front, behind⟩, hsplit, heq⟩ := Option.map_eq_some_iff.1 h
      obtain ⟨rfl, rfl⟩ := Prod.mk.inj heq
      obtain ⟨rfl, hfront⟩ := ih hsplit
      exact ⟨rfl, List.not_mem_cons_of_ne_of_not_mem (Ne.symm hne) hfront⟩

/-- A separator with none in front of it is where the text is split, whatever is behind it. This is
the converse of `of_splitFirst?`. -/
theorem splitFirst?_append {sep : Char} {before : List Char} (h : sep ∉ before)
    (after : List Char) : splitFirst? sep (before ++ sep :: after) = some (before, after) := by
  induction before with
  | nil => simp [splitFirst?]
  | cons c before ih =>
      have hc : c ≠ sep := fun hc => h (by simp [hc])
      have hrest : sep ∉ before := fun hmem => h (by simp [hmem])
      rw [List.cons_append, splitFirst?, if_neg hc, ih hrest]
      rfl

/-! ### Removing the occurrences of a text -/

/-- A beginning can be cut off exactly if the text starts with it. -/
theorem isSome_dropStart?_iff {beginning cs : List Char} :
    (dropStart? beginning cs).isSome = true ↔ beginning <+: cs := by
  rw [Option.isSome_iff_exists]
  exact exists_congr fun rest => dropStart?_eq_some_iff.trans eq_comm

/-- Behind the characters that are still to be skipped, removal starts anew. -/
theorem removeFrom_length (middle skipped cs : List Char) :
    removeFrom middle skipped.length (skipped ++ cs) = removeAll middle cs := by
  induction skipped with
  | nil => rfl
  | cons c skipped ih =>
      rw [List.length_cons, List.cons_append, removeFrom]
      exact ih

/-- An occurrence at the start is removed as a whole. -/
theorem removeAll_append_self {middle : List Char} (hne : middle ≠ []) (cs : List Char) :
    removeAll middle (middle ++ cs) = removeAll middle cs := by
  obtain ⟨c, rest, rfl⟩ := List.exists_cons_of_ne_nil hne
  have hbegins : (dropStart? (c :: rest) (c :: (rest ++ cs))).isSome = true :=
    isSome_dropStart?_iff.2 ⟨cs, rfl⟩
  rw [removeAll, List.cons_append, removeFrom, if_pos hbegins]
  exact removeFrom_length _ rest cs

/-- A character that starts no occurrence is kept. -/
theorem removeAll_cons {middle cs : List Char} {c : Char} (h : ¬middle <+: c :: cs) :
    removeAll middle (c :: cs) = c :: removeAll middle cs := by
  rw [removeAll, removeFrom, if_neg (mt isSome_dropStart?_iff.1 h)]
  rfl

/-- A beginning does not reach over a character that it does not have. If it were longer than the
part before this character, it would have it. -/
theorem prefix_append_cons_iff {beginning : List Char} {c : Char} (hc : c ∉ beginning)
    {before after : List Char} : beginning <+: before ++ c :: after ↔ beginning <+: before := by
  constructor
  · rintro ⟨rest, hrest⟩
    rcases List.append_eq_append_iff.1 hrest with ⟨more, rfl, -⟩ | ⟨extra, rfl, hextra⟩
    · exact List.prefix_append ..
    · cases extra with
      | nil => simp
      | cons d extra =>
          obtain rfl := (List.cons.inj hextra).1
          simp at hc
  · exact fun h => h.trans (List.prefix_append ..)

/-- No occurrence reaches over a character that it does not have, so the texts before and behind it
are treated by themselves. Removal may start with characters to skip, as it does behind an
occurrence; the induction allows for any number of them that ends before that character. -/
theorem removeAll_append_cons {middle : List Char} (hne : middle ≠ []) {c : Char} (hc : c ∉ middle)
    (before after : List Char) :
    removeAll middle (before ++ c :: after) =
      removeAll middle before ++ c :: removeAll middle after := by
  suffices h : ∀ skip ≤ before.length, removeFrom middle skip (before ++ c :: after) =
      removeFrom middle skip before ++ c :: removeAll middle after from h 0 (Nat.zero_le _)
  induction before with
  | nil =>
      intro skip hskip
      obtain rfl := Nat.le_zero.1 hskip
      have hbegins : ¬middle <+: [] ++ c :: after := by
        rw [prefix_append_cons_iff hc, List.prefix_nil]
        exact hne
      exact removeAll_cons hbegins
  | cons d before ih =>
      intro skip hskip
      cases skip with
      | succ skip => exact ih skip (Nat.le_of_succ_le_succ hskip)
      | zero =>
          -- An occurrence that begins before `c` ends before it.
          have hbegins : middle <+: (d :: before) ++ c :: after ↔ middle <+: d :: before :=
            prefix_append_cons_iff hc
          simp only [List.cons_append, removeFrom, isSome_dropStart?_iff] at hbegins ⊢
          by_cases hd : middle <+: d :: before
          · rw [if_pos (hbegins.2 hd), if_pos hd]
            have hlength : middle.length ≤ before.length + 1 := hd.length_le
            exact ih _ (by omega)
          · rw [if_neg (mt hbegins.1 hd), if_neg hd, ih 0 (Nat.zero_le _)]
            rfl

/-! ### Parts with white space around them -/

/-- White space in front does not survive trimming at the start. -/
theorem trimStart_append {blank : List Char} (h : Blank blank) (cs : List Char) :
    trimStart (blank ++ cs) = trimStart cs :=
  List.dropWhile_append_of_pos h

/-- White space behind a text does not survive trimming. -/
theorem trim_append_blank {blank : List Char} (h : Blank blank) (cs : List Char) :
    trim (cs ++ blank) = trim cs := by
  induction blank generalizing cs with
  | nil => rw [List.append_nil]
  | cons c blank ih =>
      have hrest : Blank blank := fun d hd => h d (by simp [hd])
      rw [List.append_cons, ih hrest, trim_concat (h c (by simp))]

/-- Trimming at the end first makes no difference. -/
theorem trim_trimEnd (cs : List Char) : trim (trimEnd cs) = trim cs := by
  obtain ⟨blank, hblank, hcs⟩ := eq_trimEnd_append_blank cs
  have htrim := trim_append_blank hblank (trimEnd cs)
  rw [← hcs] at htrim
  exact htrim.symm

/-- Trimming at the end goes no further than a character that is no white space. What is behind this
character is trimmed as if it stood alone. -/
theorem trimEnd_append_cons {c : Char} (h : isWhiteSpace c = false) (before after : List Char) :
    trimEnd (before ++ c :: after) = before ++ c :: trimEnd after := by
  rw [trimEnd, trimEnd, dropEndWhile, dropEndWhile, List.reverse_append, List.reverse_cons,
    List.append_assoc, List.dropWhile_append]
  split
  · rename_i hblank
    simp [List.isEmpty_iff.1 hblank, h]
  · simp

/-- Trimming at the start goes no further than such a character either. -/
theorem trimStart_append_cons {c : Char} (h : isWhiteSpace c = false) (before after : List Char) :
    trimStart (before ++ c :: after) = trimStart before ++ c :: after := by
  rw [trimStart, trimStart, List.dropWhile_append]
  split
  · rename_i hblank
    rw [List.isEmpty_iff.1 hblank, List.dropWhile_cons_of_neg (by simp [h]), List.nil_append]
  · rfl

/-- So trimming treats the two sides of such a character by themselves. -/
theorem trim_append_cons {c : Char} (h : isWhiteSpace c = false) (before after : List Char) :
    trim (before ++ c :: after) = trimStart before ++ c :: trimEnd after := by
  rw [trim, trimStart_append_cons h, trimEnd_append_cons h]

/-- No white space at either end. -/
structure Tidy (cs : List Char) : Prop where
  first : ∀ c ∈ cs.head?, isWhiteSpace c = false
  last : ∀ c ∈ cs.getLast?, isWhiteSpace c = false

instance (cs : List Char) : Decidable (Tidy cs) :=
  decidable_of_iff
      (cs.head?.all (!isWhiteSpace ·) = true ∧ cs.getLast?.all (!isWhiteSpace ·) = true) <| by
    simp only [Option.all_eq_true, Bool.not_eq_true']
    exact ⟨fun h => ⟨h.1, h.2⟩, fun h => ⟨h.first, h.last⟩⟩

variable {part : List Char}

/-- Trimming at the start leaves a tidy part and everything behind it. -/
theorem Tidy.trimStart_append (h : Tidy part) (hne : part ≠ []) (rest : List Char) :
    trimStart (part ++ rest) = part ++ rest := by
  cases part with
  | nil => exact absurd rfl hne
  | cons c part =>
      have hc : isWhiteSpace c = false := h.first c rfl
      rw [List.cons_append, trimStart, List.dropWhile_cons_of_neg (by simp [hc])]

/-- Trimming at the end leaves a tidy part and only reaches what is behind it. -/
theorem Tidy.trimEnd_append (h : Tidy part) (hne : part ≠ []) (rest : List Char) :
    trimEnd (part ++ rest) = part ++ trimEnd rest := by
  have hc : isWhiteSpace (part.getLast hne) = false :=
    h.last _ (List.getLast?_eq_some_getLast hne)
  rw [← List.dropLast_concat_getLast hne, List.append_assoc, List.singleton_append,
    trimEnd_append_cons hc, List.append_cons]

/-- A tidy text is left as it is, the empty one included. -/
theorem Tidy.trim_eq (h : Tidy part) : trim part = part := by
  by_cases hne : part = []
  · rw [hne]
    rfl
  · have hstart := h.trimStart_append hne []
    have hend := h.trimEnd_append hne []
    rw [List.append_nil] at hstart hend
    rw [trim, hstart, hend]
    exact List.append_nil _

/-- What trimming leaves of a part with more behind it. -/
theorem Tidy.trim_append (h : Tidy part) (hne : part ≠ []) {blank : List Char}
    (hblank : Blank blank) (rest : List Char) :
    trim (blank ++ (part ++ rest)) = part ++ trimEnd rest := by
  rw [trim, Text.trimStart_append hblank, h.trimStart_append hne, h.trimEnd_append hne]

/-- Trimming takes a tidy part out of the white space around it. -/
theorem Tidy.trim_surrounded (h : Tidy part) {left right : List Char} (hleft : Blank left)
    (hright : Blank right) : trim (left ++ (part ++ right)) = part := by
  rw [← List.append_assoc, trim_append_blank hright, trim, Text.trimStart_append hleft, ← trim,
    h.trim_eq]

/-- A trimmed text starts with a part if the text has it behind some white space; what is cut off
there is trimmed at its end. -/
theorem Tidy.dropStart?_trim_iff (h : Tidy part) (hne : part ≠ []) {text cut : List Char} :
    dropStart? part (trim text) = some cut ↔
      ∃ blank rest, Blank blank ∧ text = blank ++ (part ++ rest) ∧ cut = trimEnd rest := by
  rw [dropStart?_eq_some_iff]
  constructor
  · intro htrim
    obtain ⟨left, right, hleft, -, htext⟩ := eq_blank_append_trim text
    rw [htrim, List.append_assoc, List.append_assoc] at htext
    refine ⟨left, cut ++ right, hleft, htext, ?_⟩
    -- The same text trimmed in two ways.
    rw [htext, h.trim_append hne hleft] at htrim
    exact (List.append_cancel_left htrim).symm
  · rintro ⟨blank, rest, hblank, rfl, rfl⟩
    exact h.trim_append hne hblank rest

/-- The same for a text that is trimmed at its start only. What is left then stays as it was,
without trimming at its end. -/
theorem Tidy.dropStart?_trimStart_iff (h : Tidy part) (hne : part ≠ []) {text rest : List Char} :
    dropStart? part (trimStart text) = some rest ↔
      ∃ blank, Blank blank ∧ text = blank ++ (part ++ rest) := by
  rw [dropStart?_eq_some_iff]
  constructor
  · intro htrim
    obtain ⟨blank, hblank, htext⟩ := eq_blank_append_trimStart text
    exact ⟨blank, hblank, htrim ▸ htext⟩
  · rintro ⟨blank, hblank, rfl⟩
    rw [Text.trimStart_append hblank, h.trimStart_append hne]

/-- White space behind a text does not survive trimming at the end. -/
theorem trimEnd_append_blank {blank : List Char} (h : Blank blank) (cs : List Char) :
    trimEnd (cs ++ blank) = trimEnd cs := by
  have hreverse : ∀ c ∈ blank.reverse, isWhiteSpace c = true := fun c hc =>
    h c (List.mem_reverse.1 hc)
  rw [trimEnd, trimEnd, dropEndWhile, dropEndWhile, List.reverse_append,
    List.dropWhile_append_of_pos hreverse]

/-- No white space at the end. -/
def TidyEnd (cs : List Char) : Prop := ∀ c ∈ cs.getLast?, isWhiteSpace c = false

instance (cs : List Char) : Decidable (TidyEnd cs) :=
  decidable_of_iff (cs.getLast?.all (!isWhiteSpace ·) = true) <| by
    simp only [TidyEnd, Option.all_eq_true, Bool.not_eq_true', Option.mem_def]

/-- What trimming at the end leaves has no white space there. -/
theorem tidyEnd_trimEnd (cs : List Char) : TidyEnd (trimEnd cs) := by
  intro c hc
  rw [trimEnd, dropEndWhile, List.getLast?_reverse] at hc
  have hhead := List.head?_dropWhile_not isWhiteSpace cs.reverse
  rw [Option.mem_def.1 hc] at hhead
  simpa using hhead

/-- A text without white space at its end is left as it is. -/
theorem TidyEnd.trimEnd_eq {cs : List Char} (h : TidyEnd cs) : trimEnd cs = cs := by
  by_cases hne : cs = []
  · rw [hne]
    rfl
  · have hlast := h _ (List.getLast?_eq_some_getLast hne)
    rw [← List.dropLast_concat_getLast hne, trimEnd_append_cons hlast]
    rfl

/-- Trimming at the end leaves the text in front of white space that has none at its own end. -/
theorem trimEnd_eq_iff {cs kept : List Char} :
    trimEnd cs = kept ↔ TidyEnd kept ∧ ∃ blank, Blank blank ∧ cs = kept ++ blank := by
  constructor
  · rintro rfl
    exact ⟨tidyEnd_trimEnd cs, eq_trimEnd_append_blank cs⟩
  · rintro ⟨hkept, blank, hblank, rfl⟩
    rw [trimEnd_append_blank hblank, hkept.trimEnd_eq]

/-- A trimmed text ends with a part if the text has it in front of some white space. A part with
white space at its own end would never be found there. -/
theorem TidyEnd.dropEnd?_trimEnd_iff (h : TidyEnd part) (hne : part ≠ []) {text rest : List Char} :
    dropEnd? part (trimEnd text) = some rest ↔
      ∃ blank, Blank blank ∧ text = rest ++ (part ++ blank) := by
  have hends : TidyEnd (rest ++ part) := fun c hc => h c <| by
    rwa [List.getLast?_append, List.getLast?_eq_some_getLast hne, Option.some_or,
      ← List.getLast?_eq_some_getLast hne] at hc
  rw [dropEnd?_eq_some_iff, trimEnd_eq_iff, and_iff_right hends]
  simp only [List.append_assoc]

/-- Splitting a trimmed text at a separator is splitting the text itself and trimming the second
half, as long as the separator is no white space. -/
theorem splitFirst?_trimEnd_iff {sep : Char} (hsep : isWhiteSpace sep = false)
    {text before cut : List Char} :
    splitFirst? sep (trimEnd text) = some (before, cut) ↔
      ∃ after, text = before ++ sep :: after ∧ sep ∉ before ∧ cut = trimEnd after := by
  constructor
  · intro h
    obtain ⟨htrim, hbefore⟩ := of_splitFirst? h
    obtain ⟨blank, -, htext⟩ := eq_trimEnd_append_blank text
    rw [htrim, List.append_assoc, List.cons_append] at htext
    refine ⟨cut ++ blank, htext, hbefore, ?_⟩
    -- Trimming stops at the separator at the latest.
    rw [htext, trimEnd_append_cons hsep] at htrim
    exact (List.cons.inj (List.append_cancel_left htrim)).2.symm
  · rintro ⟨after, rfl, hbefore, rfl⟩
    rw [trimEnd_append_cons hsep, splitFirst?_append hbefore]

end Arborist.Text
