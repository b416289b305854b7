import Arborist.Proofs.Text.WhiteSpace
import Arborist.Text.LineIndex

/-!
# `Arborist.Proofs.Text.Lines`: two ways to count lines

Lines are counted in two ways. `Text.lines` cuts a text into lines and drops the ends of lines, and
`LineIndex.lineOf` looks for an offset among the offsets at which lines start. Both are compared
with the text split at line feeds.

* `lineOf_ofText`: the line of an offset is the number of line feeds among the bytes before it. The
  bytes are those of the encoded text, so an offset may fall inside a character.
* `lines_bind_eq`: who finds nothing in an empty line, and does not look at a carriage return at the
  end of a line, finds the same in `Text.lines` and in the pieces between line feeds.
-/

set_option autoImplicit false

namespace Arborist.Text

/-! ### Line feeds among bytes -/

/-- The number of line feeds among the first `n` bytes of a text. -/
def newlinesBefore (text : String) (n : Nat) : Nat :=
  (text.toUTF8.data.toList.take n).count 0x0A

/-- The bytes of a text are those of its characters. -/
theorem toUTF8_data_toList (text : String) :
    text.toUTF8.data.toList = text.toList.flatMap String.utf8EncodeChar := by
  rw [String.toUTF8, ← String.utf8Encode_toList, List.utf8Encode, List.toList_data_toByteArray]

/-- Only the line feed has the byte of a line feed. The bytes of characters beyond the first 128
are all at least 128. -/
theorem newline_mem_utf8EncodeChar {c : Char} :
    (0x0A : UInt8) ∈ String.utf8EncodeChar c ↔ c = '\n' := by
  constructor
  · intro hmem
    have hbyte : ∀ {n : Nat}, (0x0A : UInt8) = UInt8.ofNat n → n % 256 = 10 := by
      intro n hn
      have hnat := congrArg UInt8.toNat hn
      simpa using hnat.symm
    have hvalue : c.val.toNat = 10 := by
      -- One, two, three or four bytes. The first case has the value itself, the others too large
      -- bytes.
      simp only [String.utf8EncodeChar] at hmem
      split at hmem
      · have h := hbyte (List.mem_singleton.1 hmem)
        omega
      · split at hmem
        · simp only [List.mem_cons, List.not_mem_nil, or_false] at hmem
          rcases hmem with h | h <;> have h := hbyte h <;> omega
        · split at hmem
          · simp only [List.mem_cons, List.not_mem_nil, or_false] at hmem
            rcases hmem with h | h | h <;> have h := hbyte h <;> omega
          · simp only [List.mem_cons, List.not_mem_nil, or_false] at hmem
            rcases hmem with h | h | h | h <;> have h := hbyte h <;> omega
    exact Char.ext (UInt32.toNat_inj.1 hvalue)
  · rintro rfl
    decide

/-- Another character has no line feed among its first bytes. -/
theorem count_take_utf8EncodeChar {c : Char} (h : c ≠ '\n') (n : Nat) :
    ((String.utf8EncodeChar c).take n).count 0x0A = 0 :=
  List.count_eq_zero.2 fun hmem => h (newline_mem_utf8EncodeChar.1 (List.mem_of_mem_take hmem))

/-- Behind a character, lines start at its end at the earliest. So a cut inside the character has no
line start between it and the start of the character. -/
theorem le_of_mem_lineStartsFrom {cs : List Char} {offset start : Nat} {c : Char}
    (h : start ∈ lineStartsFrom (c :: cs) offset) : offset + c.utf8Size ≤ start := by
  induction cs generalizing offset c with
  | nil =>
      simp only [lineStartsFrom] at h
      split at h
      · exact Nat.le_of_eq (List.mem_singleton.1 h).symm
      · cases h
  | cons d cs ih =>
      have hrest : start ∈ lineStartsFrom (d :: cs) (offset + c.utf8Size) →
          offset + c.utf8Size ≤ start := fun h =>
        Nat.le_trans (Nat.le_add_right _ _) (ih h)
      rw [lineStartsFrom] at h
      split at h
      · -- The character is a line feed, and the next line starts right behind it.
        rcases List.mem_cons.1 h with rfl | h
        · exact Nat.le_refl _
        · exact hrest h
      · exact hrest h

/-- The lines that start within the next `n` bytes are as many as the line feeds among them. A cut
inside a character counts for neither, since a line feed is a character of one byte. -/
theorem length_filter_lineStartsFrom (cs : List Char) (offset n : Nat) :
    ((lineStartsFrom cs offset).filter (· ≤ offset + n)).length =
      ((cs.flatMap String.utf8EncodeChar).take n).count 0x0A := by
  induction cs generalizing offset n with
  | nil => simp [lineStartsFrom]
  | cons c cs ih =>
      rw [List.flatMap_cons, List.take_append, List.count_append, String.length_utf8EncodeChar]
      by_cases hwhole : c.utf8Size ≤ n
      · have hrest := ih (offset + c.utf8Size) (n - c.utf8Size)
        rw [show offset + c.utf8Size + (n - c.utf8Size) = offset + n by omega] at hrest
        rw [lineStartsFrom, ← hrest]
        by_cases hc : c = '\n'
        · subst hc
          rw [if_pos rfl, List.filter_cons_of_pos (by simpa using hwhole), List.length_cons,
            List.take_of_length_le hwhole]
          exact Nat.add_comm _ _
        · rw [if_neg hc, count_take_utf8EncodeChar hc, Nat.zero_add]
      · -- The cut is inside the character, which then is no line feed, or just before it.
        have hfront : ((String.utf8EncodeChar c).take n).count 0x0A = 0 := by
          by_cases hc : c = '\n'
          · subst hc
            have hn : n = 0 := by
              have hsize : '\n'.utf8Size = 1 := rfl
              omega
            rw [hn, List.take_zero, List.count_nil]
          · exact count_take_utf8EncodeChar hc n
        have hnone : (lineStartsFrom (c :: cs) offset).filter (· ≤ offset + n) = [] := by
          rw [List.filter_eq_nil_iff]
          intro start hstart
          have hle := le_of_mem_lineStartsFrom hstart
          simp only [decide_eq_true_eq]
          omega
        rw [hnone, hfront, show n - c.utf8Size = 0 by omega, List.take_zero, List.count_nil]
        rfl

/-- The line of an offset, counted from 0, is the number of line feeds before it; an offset past the
end counts as the end. -/
theorem lineOf_ofText (text : String) (offset : Nat) :
    (LineIndex.ofText text).lineOf offset =
      newlinesBefore text (min offset text.utf8ByteSize) := by
  have hcount := length_filter_lineStartsFrom text.toList 0 (min offset text.utf8ByteSize)
  rw [Nat.zero_add] at hcount
  rw [newlinesBefore, toUTF8_data_toList, ← hcount, LineIndex.lineOf, LineIndex.ofText,
    List.filter_cons_of_pos (by simp), List.length_cons, Nat.add_sub_cancel, LineIndex.length]

/-! ### Lines and the pieces between line feeds -/

/-- Splitting at every separator is the splitting of lists, whose lemmas are used from here on. A
text is split into one piece more than it has separators. -/
theorem splitAll_eq_splitOn (sep : Char) (cs : List Char) : splitAll sep cs = cs.splitOn sep := by
  induction cs with
  | nil => rfl
  | cons c cs ih =>
      have hcons : (c :: cs).splitOn sep =
          if c = sep then [] :: cs.splitOn sep else (cs.splitOn sep).modifyHead (c :: ·) := by
        simp [List.splitOn, List.splitOnP_cons_eq_if_modifyHead]
      rw [splitAll, ih, hcons]
      cases hsplit : cs.splitOn sep with
      | nil => exact absurd hsplit (List.splitOnP_ne_nil _ _)
      | cons piece pieces => rfl

/-- The lines of a text are the pieces between its line feeds, without a carriage return at the end
of those that a line feed ends, and without an empty last piece. -/
theorem lines_eq (cs : List Char) :
    ∃ ended last, cs.splitOn '\n' = ended ++ [last] ∧
      lines cs = (ended.map fun line => (dropEnd? ['\r'] line).getD line) ++
        if last.isEmpty then [] else [last] := by
  have hne : cs.splitOn '\n' ≠ [] := List.splitOnP_ne_nil _ _
  have hsplit := (List.dropLast_concat_getLast hne).symm
  refine ⟨_, _, hsplit, ?_⟩
  generalize (cs.splitOn '\n').dropLast = ended at hsplit ⊢
  generalize (cs.splitOn '\n').getLast hne = last at hsplit ⊢
  rw [lines, splitAll_eq_splitOn, hsplit, List.reverse_append]
  simp only [List.reverse_singleton, List.singleton_append, List.reverse_reverse]
  split <;> simp

/-- Who finds nothing in an empty line, and does not look at a carriage return at the end, finds the
same in a line of a text and in the piece between two line feeds. -/
theorem lines_bind_eq {α : Type} {find : List Char → Option α} (hempty : find [] = none)
    (hreturn : ∀ line, find (line ++ ['\r']) = find line) (cs : List Char) (i : Nat) :
    (lines cs)[i]?.bind find = (cs.splitOn '\n')[i]?.bind find := by
  obtain ⟨ended, last, hsplit, hlines⟩ := lines_eq cs
  have hstrip : ∀ line, find ((dropEnd? ['\r'] line).getD line) = find line := by
    intro line
    cases hdrop : dropEnd? ['\r'] line with
    | none => rfl
    | some rest => rw [dropEnd?_eq_some_iff.1 hdrop, hreturn, Option.getD_some]
  rw [hsplit, hlines]
  by_cases hi : i < ended.length
  · rw [List.getElem?_append_left (by simpa using hi), List.getElem?_append_left hi,
      List.getElem?_map, Option.bind_map]
    exact congrArg _ (funext hstrip)
  · rw [List.getElem?_append_right (by simpa using hi), List.getElem?_append_right (by omega),
      List.length_map]
    by_cases hlast : last = []
    · subst hlast
      -- An empty last piece is no line, and nothing is found in it.
      cases i - ended.length with
      | zero => simp [hempty]
      | succ k => simp
    · rw [if_neg (by simpa using hlast)]

end Arborist.Text
