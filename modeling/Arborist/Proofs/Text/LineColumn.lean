import Arborist.Proofs.Reporter.Finalize
import Arborist.Proofs.Text.LineIndex
import Arborist.Proofs.Text.Lines
import Mathlib.Data.Nat.PSub

/-!
# `Arborist.Proofs.Text.LineColumn`: from offsets to lines and columns, and back

`LineIndex.lineColumn` and `LineIndex.offset?` go in opposite directions. The first looks for the
last line that starts at or before an offset and counts the characters from there; the second walks
along the characters of a line.

* `lineColumn_ofText`: at an offset between two characters, the line counts the line feeds before it
  and the column counts the characters behind the last of them. `offset?` leads back to the offset.
* `rank_lt_of_append`: more characters in front make a later place, so places come in the order of
  their offsets.
* `lineColumnRead?_eq`: at any offset, also inside a character or past the end, there is a line to
  be found and a start of it to be read, and the offset is not before this start.

The last one holds because the starts of the lines rise (`pairwise_lineStartsFrom`): those up to an
offset are the first ones, so that their number leads to the last of them.
-/

set_option autoImplicit false

namespace Arborist

/-- The place in the order of a text: by line, then by column. -/
def LineColumn.rank (p : LineColumn) : Nat ×ₗ Nat := toLex (p.line, p.column)

namespace Location

/-- Where the range starts. -/
def start (l : Location) : LineColumn := ⟨l.line, l.column⟩

/-- Where the range ends. -/
def stop (l : Location) : LineColumn := ⟨l.endLine, l.endColumn⟩

end Location

namespace Text

/-- How many characters stand behind the last line feed; all of them if there is none. -/
def sinceNewline (cs : List Char) : Nat := (cs.reverse.takeWhile (· ≠ '\n')).length

/-- Characters without a line feed among them are further characters of the last line, so each moves
the column on by one. -/
theorem sinceNewline_append (cs : List Char) {ds : List Char} (h : '\n' ∉ ds) :
    sinceNewline (cs ++ ds) = sinceNewline cs + ds.length := by
  have hds : ∀ c ∈ ds.reverse, decide (c ≠ '\n') = true := by
    intro c hc
    have hmem : c ∈ ds := List.mem_reverse.1 hc
    simp only [decide_eq_true_eq]
    rintro rfl
    exact h hmem
  simp only [sinceNewline, List.reverse_append]
  rw [List.takeWhile_append_of_pos hds, List.length_append, List.length_reverse, Nat.add_comm]

/-- Nothing stands behind a line feed that ends the text, or in front of all characters. -/
theorem sinceNewline_of_ends {cs : List Char}
    (h : cs = [] ∨ ∃ earlier, cs = earlier ++ ['\n']) : sinceNewline cs = 0 := by
  rcases h with rfl | ⟨earlier, rfl⟩
  · rfl
  · simp [sinceNewline]

/-- At the end of whole characters, the line feeds among the bytes before are those among the
characters before. -/
theorem newlinesBefore_byteLength {text : String} {front rest : List Char}
    (h : text.toList = front ++ rest) :
    newlinesBefore text (byteLength front) = front.count '\n' := by
  rw [newlinesBefore, toUTF8_data_toList, h]
  clear h
  induction front with
  | nil => simp
  | cons c front ih =>
      have hsize : (String.utf8EncodeChar c).length = c.utf8Size := String.length_utf8EncodeChar c
      rw [List.cons_append, List.flatMap_cons, byteLength_cons, List.take_append, hsize,
        List.take_of_length_le (by omega), Nat.add_sub_cancel_left, List.count_append, ih]
      by_cases hc : c = '\n'
      · subst hc
        rw [List.count_cons_self, Nat.add_comm]
        rfl
      · -- No byte of another character is that of a line feed.
        have hnone := count_take_utf8EncodeChar hc c.utf8Size
        rw [List.take_of_length_le (by omega)] at hnone
        rw [hnone, List.count_cons_of_ne (by simpa using hc), Nat.zero_add]

/-! ### The starts of lines rise -/

/-- Line starts are in order and later than the offset they are counted from, since every character
takes a byte. -/
theorem pairwise_lineStartsFrom (cs : List Char) (offset : Nat) :
    (offset :: lineStartsFrom cs offset).Pairwise (· < ·) := by
  induction cs generalizing offset with
  | nil => simp [lineStartsFrom]
  | cons c cs ih =>
      have hpos := c.utf8Size_pos
      have hrest := ih (offset + c.utf8Size)
      have hfirst := (List.pairwise_cons.1 hrest).1
      -- What comes behind `c` is later than the end of `c`, and so later than its start.
      have hlt : ∀ start ∈ lineStartsFrom cs (offset + c.utf8Size), offset < start := by
        intro start hstart
        have hle := hfirst start hstart
        omega
      rw [lineStartsFrom]
      split
      · refine List.pairwise_cons.2 ⟨?_, hrest⟩
        intro start hstart
        rcases List.mem_cons.1 hstart with rfl | hstart
        · omega
        · exact hlt start hstart
      · exact List.pairwise_cons.2 ⟨hlt, (List.pairwise_cons.1 hrest).2⟩

/-- In a rising list, the numbers up to a bound come first. Their count then is a position in the
list, which is how a line is found from its starts. -/
theorem filter_le_prefix {l : List Nat} (h : l.Pairwise (· < ·)) (bound : Nat) :
    l.filter (· ≤ bound) <+: l := by
  induction l with
  | nil => simp
  | cons a l ih =>
      obtain ⟨hfirst, hrest⟩ := List.pairwise_cons.1 h
      by_cases ha : a ≤ bound
      · rw [List.filter_cons_of_pos (by simpa using ha)]
        exact (List.prefix_cons_inj a).2 (ih hrest)
      · -- All later numbers are larger still.
        have hnone : l.filter (· ≤ bound) = [] := by
          rw [List.filter_eq_nil_iff]
          intro b hb
          have hlt := hfirst b hb
          simp only [decide_eq_true_eq]
          omega
        rw [List.filter_cons_of_neg (by simpa using ha), hnone]
        exact List.nil_prefix

end Text

namespace LineIndex

open Text

variable {text : String}

/-! ### Offsets between characters -/

/-- At the end of whole characters, the line is the number of line feeds among them. -/
theorem lineOf_byteLength {front rest : List Char} (h : text.toList = front ++ rest) :
    (ofText text).lineOf (byteLength front) = front.count '\n' := by
  have hle : byteLength front ≤ text.utf8ByteSize :=
    le_of_isBoundary (isBoundary_iff.2 ⟨front, rest, h, rfl⟩)
  rw [lineOf_ofText, Nat.min_eq_left hle, newlinesBefore_byteLength h]

/-- A place on the line that starts behind `before`. The line is found by counting line feeds, and
the column is the number of characters since the line started. -/
theorem lineColumn_line {before line rest : List Char}
    (h : text.toList = before ++ (line ++ rest))
    (hends : before = [] ∨ ∃ earlier, before = earlier ++ ['\n']) (hline : '\n' ∉ line) :
    (ofText text).lineColumn (byteLength (before ++ line)) =
      ⟨before.count '\n' + 1, line.length + 1⟩ := by
  have hsplit : text.toList = before ++ line ++ rest := by rw [h, List.append_assoc]
  have hclamped : min (byteLength (before ++ line)) (ofText text).length =
      byteLength (before ++ line) :=
    Nat.min_eq_left (le_of_isBoundary (isBoundary_iff.2 ⟨_, rest, hsplit, rfl⟩))
  -- The characters since the start of the line have no line feed, so they do not count.
  have hlineOf : (ofText text).lineOf (byteLength (before ++ line)) = before.count '\n' := by
    rw [lineOf_byteLength hsplit, List.count_append, List.count_eq_zero.2 hline, Nat.add_zero]
  have hslice : sliceChars (ofText text).text.toList (byteLength before)
      (byteLength (before ++ line)) = some line :=
    sliceChars_eq_some_iff.2 ⟨before, rest, hsplit, rfl, (byteLength_append before line).symm⟩
  simp only [lineColumn, hclamped, hlineOf, lineStart?_ofText h hends,
    Option.getD_some, hslice]

/-- Behind the first characters of a text, the line counts the line feeds among them and the column
the characters behind the last of these, both from 1; and from there the way leads back. -/
theorem lineColumn_ofText {front rest : List Char} (h : text.toList = front ++ rest) :
    (ofText text).lineColumn (byteLength front) =
        ⟨1 + front.count '\n', 1 + sinceNewline front⟩ ∧
      (ofText text).offset? (1 + front.count '\n') (sinceNewline front) =
        some (byteLength front) := by
  obtain ⟨before, line, rfl, hline, hends⟩ := exists_lastLine front
  have hcount : (before ++ line).count '\n' = before.count '\n' := by
    rw [List.count_append, List.count_eq_zero.2 hline, Nat.add_zero]
  have hsince : sinceNewline (before ++ line) = line.length := by
    rw [sinceNewline_append before hline, sinceNewline_of_ends hends, Nat.zero_add]
  rw [List.append_assoc] at h
  rw [hcount, hsince, Nat.add_comm 1, Nat.add_comm 1]
  constructor
  · exact lineColumn_line h hends hline
  · rw [offset?_ofText h hends hline (Nat.le_refl _), List.take_length]

/-- More characters in front make a later place. With a line feed among them the line is later;
without one the line is the same and the column later. -/
theorem rank_lt_of_append (front : List Char) {middle : List Char} (hmiddle : middle ≠ []) :
    (LineColumn.mk (1 + front.count '\n') (1 + sinceNewline front)).rank <
      (LineColumn.mk (1 + (front ++ middle).count '\n')
        (1 + sinceNewline (front ++ middle))).rank := by
  simp only [LineColumn.rank, Prod.Lex.toLex_lt_toLex, List.count_append]
  by_cases hfeed : '\n' ∈ middle
  · have hpos := List.count_pos_iff.2 hfeed
    left
    omega
  · have hpos := List.length_pos_iff.2 hmiddle
    have hsince := sinceNewline_append front hfeed
    have hcount := List.count_eq_zero.2 hfeed
    right
    omega

/-- Places come in the order of their offsets. A later offset between characters has more characters
in front, since the text has one beginning of each length. -/
theorem rank_lineColumn_lt {o o' : Nat} (ho : isBoundary text o = true)
    (ho' : isBoundary text o' = true) (hlt : o < o') :
    ((ofText text).lineColumn o).rank < ((ofText text).lineColumn o').rank := by
  obtain ⟨front, rest, hsplit, rfl⟩ := isBoundary_iff.1 ho
  obtain ⟨front', rest', hsplit', rfl⟩ := isBoundary_iff.1 ho'
  obtain ⟨middle, rfl⟩ :=
    append_of_byteLength_le (hsplit.symm.trans hsplit') (Nat.le_of_lt hlt)
  have hmiddle : middle ≠ [] := by
    rintro rfl
    simp at hlt
  rw [(lineColumn_ofText hsplit).1, (lineColumn_ofText hsplit').1]
  exact rank_lt_of_append front hmiddle

/-- A later boundary is never displayed before an earlier one. -/
theorem rank_lineColumn_le {o o' : Nat} (ho : isBoundary text o = true)
    (ho' : isBoundary text o' = true) (hle : o ≤ o') :
    ((ofText text).lineColumn o).rank ≤ ((ofText text).lineColumn o').rank := by
  rcases Nat.eq_or_lt_of_le hle with rfl | hlt
  · exact le_refl _
  · exact le_of_lt (rank_lineColumn_lt ho ho' hlt)

/-! ### Any offset -/

/-- Line and column of an offset; `none` is a line before the first one, a read behind the last
start of a line, or an offset before the start of its line. -/
def lineColumnRead? (index : LineIndex) (offset : Nat) : Option LineColumn := do
  let offset := min offset index.length
  let line ← (index.starts.filter (· ≤ offset)).length.psub 1
  let start ← index.lineStart? line
  let column ← match sliceChars index.text.toList start offset with
    | some cs => some cs.length
    | none => offset.psub start
  return ⟨line + 1, column + 1⟩

/-- The first line starts at the front, so that some line starts up to any offset. -/
theorem filter_starts_pos (text : String) (bound : Nat) :
    0 < ((ofText text).starts.filter (· ≤ bound)).length := by
  rw [List.length_pos_iff_exists_mem]
  exact ⟨0, List.mem_filter.2 ⟨List.mem_cons_self, by simp⟩⟩

/-- The line of an offset is a line of the text. -/
theorem lineOf_lt_lineCount (text : String) (offset : Nat) :
    (ofText text).lineOf offset < (ofText text).lineCount := by
  have hpos := filter_starts_pos text (min offset (ofText text).length)
  have hle := List.length_filter_le (· ≤ min offset (ofText text).length) (ofText text).starts
  rw [lineOf, lineCount]
  omega

/-- The line of an offset starts at or before it. The starts up to the offset are the first ones in
the list, and the line is the last of these. -/
theorem exists_lineStart_le (text : String) (offset : Nat) :
    ∃ start, (ofText text).lineStart? ((ofText text).lineOf offset) = some start ∧
      start ≤ min offset (ofText text).length := by
  have hpos := filter_starts_pos text (min offset (ofText text).length)
  have hline : (ofText text).lineOf offset =
      ((ofText text).starts.filter (· ≤ min offset (ofText text).length)).length - 1 := rfl
  have hbound : ∀ start ∈ (ofText text).starts.filter (· ≤ min offset (ofText text).length),
      start ≤ min offset (ofText text).length := by
    intro start hstart
    simpa using (List.mem_filter.1 hstart).2
  have hprefix : (ofText text).starts.filter (· ≤ min offset (ofText text).length) <+:
      (ofText text).starts := filter_le_prefix (pairwise_lineStartsFrom text.toList 0) _
  -- From here on it is enough that `early` is a front part of the starts and is not empty.
  generalize (ofText text).starts.filter (· ≤ min offset (ofText text).length) = early
    at hpos hline hbound hprefix
  obtain ⟨later, hstarts⟩ := hprefix
  have hlast : (ofText text).lineOf offset < early.length := by omega
  refine ⟨early[(ofText text).lineOf offset], ?_, hbound _ (List.getElem_mem hlast)⟩
  rw [lineStart?, ← hstarts, List.getElem?_append_left hlast, List.getElem?_eq_getElem hlast]

/-- Looking up an offset never fails, also inside a character and past the end. The two subtractions
are of smaller numbers: some line starts at or before the offset, and the one that is found does. -/
theorem lineColumnRead?_eq (text : String) (offset : Nat) :
    (ofText text).lineColumnRead? offset = some ((ofText text).lineColumn offset) := by
  have hpos := filter_starts_pos text (min offset (ofText text).length)
  have hclamped : (ofText text).lineOf (min offset (ofText text).length) =
      (ofText text).lineOf offset := by
    rw [lineOf, lineOf, Nat.min_eq_left (Nat.min_le_right _ _)]
  have hline : ((ofText text).starts.filter
      (· ≤ min offset (ofText text).length)).length.psub 1 =
        some ((ofText text).lineOf offset) := Nat.psub_eq_sub hpos
  obtain ⟨start, hstart, hle⟩ := exists_lineStart_le text offset
  simp only [lineColumnRead?, lineColumn, hclamped, hline, hstart, Option.bind_eq_bind,
    Option.bind_some, Option.getD_some]
  cases sliceChars (ofText text).text.toList start (min offset (ofText text).length) with
  | some cs => rfl
  -- The offset is inside a character, so the column is counted in bytes.
  | none =>
      simp only [Nat.psub_eq_sub hle]
      rfl

/-- Offsets past the end answer as the end does. -/
theorem lineColumn_of_length_le {offset : Nat} (h : text.utf8ByteSize ≤ offset) :
    (ofText text).lineColumn offset = (ofText text).lineColumn text.utf8ByteSize := by
  have hclamped : min offset (ofText text).length = min text.utf8ByteSize (ofText text).length := by
    show min offset text.utf8ByteSize = min text.utf8ByteSize text.utf8ByteSize
    omega
  rw [lineColumn, hclamped]
  rfl

/-- Offsets, lines and columns of a text belong together.

* Between two characters, the line of an offset counts the line feeds before it and the column the
  characters behind the last of these, both from 1, and `offset?` leads back to the offset.
* So later offsets have later places, and a diagnostic in a final report does not end before it
  starts.
* Any offset at all has a place on one of the lines, and those past the end have the place of the
  end. -/
theorem lineColumn_inverts_offset (text : String) :
    let index := ofText text
    (∀ o, isBoundary text o = true →
      ∃ front rest, text.toList = front ++ rest ∧ byteLength front = o ∧
        index.lineColumn o = ⟨1 + front.count '\n', 1 + sinceNewline front⟩ ∧
        index.offset? (index.lineColumn o).line ((index.lineColumn o).column - 1) = some o) ∧
    (∀ o o', isBoundary text o = true → isBoundary text o' = true → o < o' →
      (index.lineColumn o).rank < (index.lineColumn o').rank) ∧
    (∀ (category : FileCategory) (path : String) (r : Reporter) (suppressions : Suppressions),
      ∀ d ∈ r.finalize ⟨text, category, path, index⟩ suppressions,
        d.range.start ≤ d.range.stop → isBoundary text d.range.start = true →
          isBoundary text d.range.stop = true → d.location.start.rank ≤ d.location.stop.rank) ∧
    ∀ offset, index.lineColumnRead? offset = some (index.lineColumn offset) ∧
      1 ≤ (index.lineColumn offset).line ∧ (index.lineColumn offset).line ≤ index.lineCount ∧
      (text.utf8ByteSize ≤ offset →
        index.lineColumn offset = index.lineColumn text.utf8ByteSize) := by
  intro index
  refine ⟨?_, fun o o' => rank_lineColumn_lt, ?_, ?_⟩
  · intro o ho
    obtain ⟨front, rest, hsplit, rfl⟩ := isBoundary_iff.1 ho
    obtain ⟨hplace, hback⟩ := lineColumn_ofText hsplit
    refine ⟨front, rest, hsplit, rfl, hplace, ?_⟩
    rw [hplace, Nat.add_sub_cancel_left]
    exact hback
  · -- The place of a diagnostic is filled in from its range at the end, whatever it was before.
    intro category path r suppressions d hd hordered hstart hstop
    obtain ⟨c, -, -, rfl⟩ := Reporter.mem_finalize_iff.1 hd
    exact rank_lineColumn_le hstart hstop hordered
  · intro offset
    -- The offset is cut to the length first, and the lines are counted from 0 inside.
    have hline := lineOf_lt_lineCount text (min offset index.length)
    have hplace : (index.lineColumn offset).line = index.lineOf (min offset index.length) + 1 := rfl
    refine ⟨lineColumnRead?_eq text offset, ?_, ?_, lineColumn_of_length_le⟩
    · omega
    · rw [hplace]
      exact hline

end LineIndex

end Arborist
