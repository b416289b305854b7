import Arborist.Proofs.Text.LineColumn

/-!
# `Arborist.Proofs.Text.LineEnd`: columns past the end of a line

`LineIndex.offset?` walks along a line up to a column, or up to the end of the line if the column is
past it. The characters it walks along are those up to the start of the next line, so the line feed
is one of them, and behind the line feed the next line has begun. Only the last line has no line
feed to step over.

Lines are those of `Text.IsLine`, which does not know the index. A text has one line more than line
feeds, and the index counts them all (`exists_isLine_of_le_lineCount`).

* `offset?_of_le`: up to the end of its characters, and anywhere on the last line, a column leads to
  a place on the line.
* `offset?_of_lt`: on any other line, a column past the end leads to the start of the next line.
* `offset_leaves_line_iff`: these are all answers, and there is one for each line. Places that are
  counted along the text are never past the end of their line.
-/

set_option autoImplicit false

namespace Arborist

open Source (Position)

/-- Nothing stands behind the last line, and only there. It is the line with all line feeds of the
text in front of it. -/
theorem Text.IsLine.rest_eq_nil_iff {cs before content rest : List Char}
    (h : IsLine cs before content rest) :
    rest = [] ↔ before.count '\n' = cs.count '\n' := by
  have hcount : cs.count '\n' = before.count '\n' + rest.count '\n' := by
    rw [h.split, List.count_append, List.count_append, List.count_eq_zero.2 h.newline_notMem,
      Nat.zero_add]
  rcases h.ends with rfl | ⟨later, rfl⟩
  · simp [hcount]
  · rw [List.count_cons_self] at hcount
    simp only [reduceCtorEq, false_iff]
    omega

namespace LineIndex

open Text

variable {text : String} {before content rest : List Char}

/-- There is one line more than line feeds. -/
theorem lineCount_ofText (text : String) :
    (ofText text).lineCount = text.toList.count '\n' + 1 := by
  show (lineStartsFrom text.toList 0).length + 1 = _
  rw [length_lineStartsFrom]

/-- Before the line feed, and where there is none, the walk stays on the line. Behind the end of the
last line it stays at the end of the text. -/
theorem offset?_of_le (h : IsLine text.toList before content rest) {column : Nat}
    (hcolumn : column ≤ content.length ∨ rest = []) :
    (ofText text).offset? (before.count '\n' + 1) column =
        some (byteLength (before ++ content.take column)) ∧
      (ofText text).lineOf (byteLength (before ++ content.take column)) = before.count '\n' := by
  -- The walk does not come to the line feed, or there is none.
  have hwalk : (content ++ rest.take 1).take column = content.take column := by
    rcases hcolumn with hle | rfl
    · exact List.take_append_of_le_length hle
    · rw [List.take_nil, List.append_nil]
  constructor
  · rw [offset?_of_isLine h, hwalk]
  · have hsplit : text.toList =
        before ++ content.take column ++ (content.drop column ++ rest) := by
      rw [List.append_assoc, ← List.append_assoc (content.take column), List.take_append_drop]
      exact h.split
    have hnone : '\n' ∉ content.take column := fun hmem =>
      h.newline_notMem (List.mem_of_mem_take hmem)
    rw [lineOf_byteLength hsplit, List.count_append, List.count_eq_zero.2 hnone, Nat.add_zero]

/-- Past the line feed, the walk is at the start of the next line. The index says so too: the next
line starts at the offset that was found, and the offset is on that line. -/
theorem offset?_of_lt (h : IsLine text.toList before content rest) {column : Nat}
    (hcolumn : content.length < column) (hrest : rest ≠ []) :
    (ofText text).offset? (before.count '\n' + 1) column =
        some (byteLength (before ++ content) + 1) ∧
      (ofText text).lineStart? (before.count '\n' + 1) =
        some (byteLength (before ++ content) + 1) ∧
      (ofText text).lineOf (byteLength (before ++ content) + 1) = before.count '\n' + 1 := by
  obtain ⟨later, rfl⟩ := h.ends.resolve_left hrest
  -- All three are about the characters through the line feed.
  have hbytes : byteLength (before ++ content) + 1 = byteLength (before ++ content ++ ['\n']) := by
    rw [byteLength_append (before ++ content)]
    rfl
  have hcount : (before ++ content ++ ['\n']).count '\n' = before.count '\n' + 1 := by
    rw [List.count_append, List.count_append, List.count_eq_zero.2 h.newline_notMem,
      List.count_singleton_self, Nat.add_zero]
  have hsplit : text.toList = before ++ content ++ ['\n'] ++ later := by
    rw [h.split]
    simp
  rw [hbytes]
  refine ⟨?_, ?_, ?_⟩
  · have hwalk : (content ++ ('\n' :: later).take 1).take column = content ++ ['\n'] := by
      refine List.take_of_length_le ?_
      rw [List.length_append]
      exact hcolumn
    rw [offset?_of_isLine h, hwalk, List.append_assoc]
  · rw [← hcount]
    exact lineStart?_ofText hsplit (.inr ⟨before ++ content, rfl⟩)
  · rw [lineOf_byteLength hsplit, hcount]

/-- The index counts the lines of the text, from 1. Each number up to that count is the number of a
line. -/
theorem exists_isLine_of_le_lineCount {line : Nat} (hpos : 0 < line)
    (hle : line ≤ (ofText text).lineCount) :
    ∃ before content rest, IsLine text.toList before content rest ∧
      line = before.count '\n' + 1 := by
  rw [lineCount_ofText] at hle
  have hfeeds : line - 1 ≤ text.toList.count '\n' := by omega
  obtain ⟨before, content, rest, hisLine, hcount⟩ := exists_isLine hfeeds
  exact ⟨before, content, rest, hisLine, by omega⟩

/-- There is an answer for each line of the text and for no other. The column plays no part in it,
as one that is too large has an answer as well. -/
theorem offset?_eq_none_iff {line column : Nat} :
    (ofText text).offset? line column = none ↔ line = 0 ∨ (ofText text).lineCount < line := by
  constructor
  · intro hnone
    by_cases hline : line = 0
    · exact .inl hline
    · refine .inr (Nat.lt_of_not_le fun hle => ?_)
      obtain ⟨before, content, rest, hisLine, rfl⟩ :=
        exists_isLine_of_le_lineCount (Nat.pos_of_ne_zero hline) hle
      rw [offset?_of_isLine hisLine] at hnone
      cases hnone
  · rintro (rfl | hlt)
    · rfl
    · -- Behind the last line no line starts.
      have hstart : (ofText text).lineStart? (line - 1) = none :=
        List.getElem?_eq_none (Nat.le_sub_one_of_lt hlt)
      rw [offset?, hstart]
      split <;> rfl

/-- Where the columns of a line lead.

* There is an answer for each line of the text, whatever the column, and for no other line.
* An answer falls between two characters. It is on the line exactly if the column is at most at the
  end of the characters of the line, or if the line is the last one; then columns past the end are
  the end. Otherwise it is one byte past the end, where the next line starts.
* A place that is counted along the characters of the text is never past the end of its line, so it
  is found, and on its line. -/
theorem offset_leaves_line_iff (text : String) :
    let index := ofText text
    (∀ line column, index.offset? line column = none ↔ line = 0 ∨ index.lineCount < line) ∧
    (∀ line column o, index.offset? line column = some o →
      isBoundary text o = true ∧ o ≤ text.utf8ByteSize ∧
      ∃ before content rest, IsLine text.toList before content rest ∧
        line = before.count '\n' + 1 ∧ index.lineStart? (line - 1) = some (byteLength before) ∧
        (index.lineOf o = line - 1 ↔ column ≤ content.length ∨ line = index.lineCount) ∧
        (index.lineOf o = line - 1 → o = byteLength (before ++ content.take column)) ∧
        (index.lineOf o ≠ line - 1 → o = byteLength (before ++ content) + 1 ∧
          index.lineStart? line = some o ∧ index.lineOf o = line)) ∧
    ∀ front rest, text.toList = front ++ rest →
      let place := Position.first.afterAll front
      index.offset? place.line place.column = some (byteLength front) ∧
        index.lineOf (byteLength front) = place.line - 1 := by
  intro index
  refine ⟨fun line column => offset?_eq_none_iff, ?_, ?_⟩
  · intro line column o h
    have hline : ¬(line = 0 ∨ index.lineCount < line) := by
      rw [← offset?_eq_none_iff, h]
      exact Option.some_ne_none o
    obtain ⟨hpos, hle⟩ := not_or.1 hline
    -- There is an answer, so the number is that of a line, which is taken out of the text.
    obtain ⟨before, content, rest, hisLine, rfl⟩ :=
      exists_isLine_of_le_lineCount (Nat.pos_of_ne_zero hpos) (Nat.le_of_not_lt hle)
    have hboundary := isBoundary_of_offset? h
    have hlast : rest = [] ↔ before.count '\n' + 1 = index.lineCount := by
      rw [hisLine.rest_eq_nil_iff, lineCount_ofText, Nat.add_right_cancel_iff]
    refine ⟨hboundary, le_of_isBoundary hboundary, before, content, rest, hisLine, rfl,
      lineStart?_ofText hisLine.split hisLine.starts, ?_⟩
    rw [← hlast, Nat.add_sub_cancel]
    -- The column is within the line, or past the end of the last line; otherwise it leaves the
    -- line.
    by_cases hcolumn : column ≤ content.length ∨ rest = []
    · obtain ⟨hoffset, hlineOf⟩ := offset?_of_le hisLine hcolumn
      obtain rfl : byteLength (before ++ content.take column) = o :=
        Option.some.inj (hoffset.symm.trans h)
      exact ⟨iff_of_true hlineOf hcolumn, fun _ => rfl, fun hne => absurd hlineOf hne⟩
    · obtain ⟨hlt, hrest⟩ := not_or.1 hcolumn
      obtain ⟨hoffset, hstart, hlineOf⟩ := offset?_of_lt hisLine (Nat.lt_of_not_le hlt) hrest
      obtain rfl : byteLength (before ++ content) + 1 = o :=
        Option.some.inj (hoffset.symm.trans h)
      have hleaves : index.lineOf (byteLength (before ++ content) + 1) ≠ before.count '\n' := by
        rw [hlineOf]
        exact Nat.succ_ne_self _
      exact ⟨iff_of_false hleaves hcolumn, fun heq => absurd heq hleaves,
        fun _ => ⟨rfl, hstart, hlineOf⟩⟩
  · intro front rest hsplit place
    have hline : place.line = 1 + front.count '\n' := Position.line_afterAll _ _
    refine ⟨offset?_afterAll hsplit, ?_⟩
    rw [lineOf_byteLength hsplit, hline, Nat.add_sub_cancel_left]

/-- The first line of two ends at offset 1. A column past its end leads behind the line feed, to the
second line. -/
theorem offset_spills_onto_next_line :
    let index := ofText "a\nb"
    index.offset? 1 1 = some 1 ∧ index.lineOf 1 = 1 - 1 ∧
      index.offset? 1 2 = some 2 ∧ index.lineOf 2 ≠ 1 - 1 ∧ index.lineStart? 1 = some 2 := by
  decide

end LineIndex

end Arborist
