import Arborist.Proofs.Text.Bytes
import Arborist.Source.Position
import Arborist.Text.LineIndex

/-!
# `Arborist.Proofs.Text.LineIndex`: from lines and columns back to offsets

A place in a text is counted along the characters before it, a line and a column at a time
(`Source.Position.afterAll`). `LineIndex.offset?` turns such a place into an offset.

* `isBoundary_of_offset?`: whatever line and column it is asked for, an answer falls between two
  characters.
* `offset?_of_isLine`: a line is described by what stands around it (`Text.IsLine`). An answer
  counts the bytes up to a column of the line, the line feed behind the line being its last
  character.
* `offset?_afterAll`: for the place behind the first characters of the text, the answer is the
  length of these characters in bytes.

The last one goes along the last line feed of the characters in front. It ends them, or a part of
them (`exists_lastLine`); there the line starts, and the column counts the characters behind it.
-/

set_option autoImplicit false

namespace Arborist

open Source (Position)

namespace Text

/-- The bytes of a text are those of its characters. This ties the lists of characters, on which
everything here is computed, to the size of the text itself. -/
theorem byteLength_toList (text : String) : byteLength text.toList = text.utf8ByteSize := by
  have hofList : ∀ cs : List Char, byteLength cs = (String.ofList cs).utf8ByteSize := by
    intro cs
    induction cs with
    | nil => simp
    | cons c cs ih =>
        have hsplit : String.ofList (c :: cs) = String.singleton c ++ String.ofList cs := by
          rw [String.singleton_eq_ofList, ← String.ofList_append]
          rfl
        rw [byteLength_cons, ih, hsplit, String.utf8ByteSize_append, String.utf8ByteSize_singleton]
  rw [hofList, String.ofList_toList]

/-- A boundary lies within the text. -/
theorem le_of_isBoundary {text : String} {offset : Nat} (h : isBoundary text offset = true) :
    offset ≤ text.utf8ByteSize := by
  obtain ⟨front, rest, hsplit, rfl⟩ := isBoundary_iff.1 h
  rw [← byteLength_toList, hsplit, byteLength_append]
  exact Nat.le_add_right _ _

/-- The end of a text is a boundary. -/
theorem isBoundary_utf8ByteSize (text : String) : isBoundary text text.utf8ByteSize = true :=
  isBoundary_iff.2 ⟨text.toList, [], by simp, byteLength_toList text⟩

/-! ### Where lines start -/

/-- The line starts of a text in two pieces: those of the second are counted from behind the
first. -/
theorem lineStartsFrom_append (cs ds : List Char) (offset : Nat) :
    lineStartsFrom (cs ++ ds) offset =
      lineStartsFrom cs offset ++ lineStartsFrom ds (offset + byteLength cs) := by
  induction cs generalizing offset with
  | nil => rfl
  | cons c cs ih =>
      rw [List.cons_append, lineStartsFrom, lineStartsFrom, ih, byteLength_cons, ← Nat.add_assoc]
      split <;> rfl

/-- Each line feed starts a line. The first line of a text is started by none, and is not counted
here. -/
theorem length_lineStartsFrom (cs : List Char) (offset : Nat) :
    (lineStartsFrom cs offset).length = cs.count '\n' := by
  induction cs generalizing offset with
  | nil => rfl
  | cons c cs ih =>
      rw [lineStartsFrom]
      split
      · next hc => rw [hc, List.length_cons, ih, List.count_cons_self]
      · next hc => rw [ih, List.count_cons_of_ne (by simpa using hc)]

/-- Without a line feed no further line starts. -/
theorem lineStartsFrom_eq_nil {cs : List Char} (h : '\n' ∉ cs) (offset : Nat) :
    lineStartsFrom cs offset = [] := by
  rw [← List.length_eq_zero_iff, length_lineStartsFrom, List.count_eq_zero.2 h]

/-- A text ends with what follows its last line feed. Where there is no line feed, that is the whole
text. -/
theorem exists_lastLine (cs : List Char) :
    ∃ before line, cs = before ++ line ∧ '\n' ∉ line ∧
      (before = [] ∨ ∃ earlier, before = earlier ++ ['\n']) := by
  induction cs with
  | nil => exact ⟨[], [], rfl, by simp, .inl rfl⟩
  | cons c cs ih =>
      obtain ⟨before, line, rfl, hline, hends⟩ := ih
      rcases hends with rfl | ⟨earlier, rfl⟩
      · -- The rest has no line feed, so `c` is the last one or belongs to the line.
        by_cases hc : c = '\n'
        · exact ⟨[c], line, rfl, hline, .inr ⟨[], by rw [hc]; rfl⟩⟩
        · refine ⟨[], c :: line, rfl, ?_, .inl rfl⟩
          rintro (_ | ⟨_, hmem⟩)
          · exact hc rfl
          · exact hline hmem
      · exact ⟨c :: (earlier ++ ['\n']), line, rfl, hline, .inr ⟨c :: earlier, rfl⟩⟩

/-! ### Lines by what stands around them -/

/-- `content` is the line of `cs` between `before` and `rest`. On either side is a line feed or an
end of the text; the line feed behind the line is left to `rest`. -/
structure IsLine (cs before content rest : List Char) : Prop where
  split : cs = before ++ (content ++ rest)
  starts : before = [] ∨ ∃ earlier, before = earlier ++ ['\n']
  ends : rest = [] ∨ ∃ later, rest = '\n' :: later
  newline_notMem : '\n' ∉ content

/-- A text can be cut in front of any of its line feeds, and at its end. So every number of line
feeds up to that of the text is the number in front of some cut. -/
theorem exists_append_of_le_count {cs : List Char} {n : Nat} (h : n ≤ cs.count '\n') :
    ∃ front rest, cs = front ++ rest ∧ front.count '\n' = n ∧
      (rest = [] ∨ ∃ later, rest = '\n' :: later) := by
  induction cs generalizing n with
  | nil => exact ⟨[], [], rfl, (Nat.le_zero.1 h).symm, .inl rfl⟩
  | cons c cs ih =>
      by_cases hc : c = '\n'
      · subst hc
        cases n with
        -- The cut is in front of this line feed.
        | zero => exact ⟨[], '\n' :: cs, rfl, rfl, .inr ⟨cs, rfl⟩⟩
        | succ n =>
            rw [List.count_cons_self] at h
            obtain ⟨front, rest, hsplit, hcount, hends⟩ := ih (Nat.le_of_succ_le_succ h)
            refine ⟨'\n' :: front, rest, by rw [hsplit, List.cons_append], ?_, hends⟩
            rw [List.count_cons_self, hcount]
      · have hskip : ∀ ds : List Char, (c :: ds).count '\n' = ds.count '\n' := by
          intro ds
          exact List.count_cons_of_ne (by simpa using hc)
        rw [hskip] at h
        obtain ⟨front, rest, hsplit, hcount, hends⟩ := ih h
        exact ⟨c :: front, rest, by rw [hsplit, List.cons_append], by rw [hskip, hcount], hends⟩

/-- There is a line behind each line feed, and one at the front. -/
theorem exists_isLine {cs : List Char} {n : Nat} (h : n ≤ cs.count '\n') :
    ∃ before content rest, IsLine cs before content rest ∧ before.count '\n' = n := by
  obtain ⟨front, rest, hsplit, hcount, hrest⟩ := exists_append_of_le_count h
  obtain ⟨before, content, rfl, hcontent, hbefore⟩ := exists_lastLine front
  refine ⟨before, content, rest, ⟨?_, hbefore, hrest, hcontent⟩, ?_⟩
  · rw [hsplit, List.append_assoc]
  · rw [← hcount, List.count_append, List.count_eq_zero.2 hcontent, Nat.add_zero]

end Text

namespace Source.Position

/-- The position behind two pieces of text is the one behind the second, counted from the first. -/
theorem afterAll_append (p : Position) (cs ds : List Char) :
    p.afterAll (cs ++ ds) = (p.afterAll cs).afterAll ds :=
  List.foldl_append

/-- Within a line only the column moves, by one for each character, whatever its length in bytes. -/
theorem afterAll_of_not_mem (p : Position) {cs : List Char} (h : '\n' ∉ cs) :
    p.afterAll cs = ⟨p.line, p.column + cs.length⟩ := by
  induction cs generalizing p with
  | nil => rfl
  | cons c cs ih =>
      have hc : c ≠ '\n' := fun hc => h (by simp [hc])
      have hcs : '\n' ∉ cs := fun hmem => h (by simp [hmem])
      show (p.after c).afterAll cs = _
      rw [ih _ hcs, after, if_neg hc, List.length_cons, Nat.add_assoc, Nat.add_comm 1]

/-- The line moves on by one for each line feed. What else stands in the text makes no difference to
it. -/
theorem line_afterAll (p : Position) (cs : List Char) :
    (p.afterAll cs).line = p.line + cs.count '\n' := by
  induction cs generalizing p with
  | nil => rfl
  | cons c cs ih =>
      show ((p.after c).afterAll cs).line = _
      rw [ih, after]
      split
      · next hc =>
          rw [hc, List.count_cons_self]
          show p.line + 1 + _ = _
          omega
      · next hc => rw [List.count_cons_of_ne (by simpa using hc)]

/-- Behind a line feed, the column does not depend on what was before it. -/
theorem afterAll_of_ends (p : Position) {before line : List Char}
    (hends : ∃ earlier, before = earlier ++ ['\n']) (hline : '\n' ∉ line) :
    p.afterAll (before ++ line) = ⟨p.line + before.count '\n', line.length⟩ := by
  obtain ⟨earlier, rfl⟩ := hends
  rw [afterAll_append, afterAll_of_not_mem _ hline, line_afterAll, afterAll_append]
  show Position.mk _ (0 + line.length) = _
  rw [Nat.zero_add]

end Source.Position

namespace LineIndex

open Text

variable {text : String}

/-- The line behind the line feed that ends `before`, or at the front of the text, starts there. It
is found at the number of line feeds in front of it. -/
theorem lineStart?_ofText {before rest : List Char} (h : text.toList = before ++ rest)
    (hends : before = [] ∨ ∃ earlier, before = earlier ++ ['\n']) :
    (ofText text).lineStart? (before.count '\n') = some (byteLength before) := by
  show (0 :: lineStartsFrom text.toList 0)[before.count '\n']? = _
  rcases hends with rfl | ⟨earlier, rfl⟩
  · rfl
  · rw [h, lineStartsFrom_append, lineStartsFrom_append]
    simp only [List.count_append, List.count_singleton_self, List.getElem?_cons_succ,
      List.append_assoc]
    rw [List.getElem?_append_right (Nat.le_of_eq (length_lineStartsFrom _ _)),
      length_lineStartsFrom, Nat.sub_self]
    rw [lineStartsFrom, if_pos rfl, byteLength_append]
    simp

/-- The next line starts, or the text ends, behind the line feed of the line. In both cases this is
the end of what a walk along the line can come to. -/
theorem lineStart?_succ_of_isLine {before content rest : List Char}
    (h : IsLine text.toList before content rest) :
    ((ofText text).lineStart? (before.count '\n' + 1)).getD (ofText text).length =
      byteLength before + byteLength (content ++ rest.take 1) := by
  show ((0 :: lineStartsFrom text.toList 0)[before.count '\n' + 1]?).getD text.utf8ByteSize = _
  rw [List.getElem?_cons_succ, ← byteLength_toList, h.split, lineStartsFrom_append,
    List.getElem?_append_right (Nat.le_of_eq (length_lineStartsFrom _ _)),
    length_lineStartsFrom, Nat.sub_self, lineStartsFrom_append,
    lineStartsFrom_eq_nil h.newline_notMem, List.nil_append, byteLength_append, Nat.zero_add]
  -- The line is the last one, or a line feed follows.
  rcases h.ends with rfl | ⟨later, rfl⟩
  · rfl
  · show byteLength before + byteLength content + '\n'.utf8Size = _
    rw [byteLength_append, Nat.add_assoc]
    rfl

/-- An answer falls between two characters of the text, since the columns of a line are counted in
characters. -/
theorem isBoundary_of_offset? {line column offset : Nat}
    (h : (ofText text).offset? line column = some offset) : isBoundary text offset = true := by
  rw [offset?] at h
  split at h
  · cases h
  · obtain ⟨start, -, h⟩ := Option.bind_eq_some_iff.1 h
    obtain ⟨cs, hslice, h⟩ := Option.bind_eq_some_iff.1 h
    obtain rfl : start + byteLength (cs.take column) = offset := Option.some.inj h
    obtain ⟨front, back, hsplit, rfl, -⟩ := sliceChars_eq_some_iff.1 hslice
    refine isBoundary_iff.2
      ⟨front ++ cs.take column, cs.drop column ++ back, ?_, byteLength_append _ _⟩
    show (ofText text).text.toList = _
    rw [hsplit, List.append_assoc front (cs.take column), ← List.append_assoc (cs.take column),
      List.take_append_drop, List.append_assoc]

/-- The walk along a line takes the line feed behind it for its last character. So a column that is
too large leads to the start of the next line, or to the end of the text. -/
theorem offset?_of_isLine {before content rest : List Char}
    (h : IsLine text.toList before content rest) (column : Nat) :
    (ofText text).offset? (before.count '\n' + 1) column =
      some (byteLength (before ++ (content ++ rest.take 1).take column)) := by
  have hslice : sliceChars text.toList (byteLength before)
      (byteLength before + byteLength (content ++ rest.take 1)) =
      some (content ++ rest.take 1) := by
    refine sliceChars_eq_some_iff.2 ⟨before, rest.drop 1, ?_, rfl, rfl⟩
    rw [List.append_assoc, List.append_assoc content, List.take_append_drop]
    exact h.split
  rw [offset?, if_neg (Nat.succ_ne_zero _), Nat.add_sub_cancel,
    lineStart?_ofText h.split h.starts, lineStart?_succ_of_isLine h]
  show (sliceChars text.toList _ _ >>= _) = _
  rw [hslice, byteLength_append]
  rfl

/-- A place on a line that starts behind `before`, at most at the end of the line. What is behind
the place does not matter, be it more of the line or another line. -/
theorem offset?_ofText {before line rest : List Char} (h : text.toList = before ++ (line ++ rest))
    (hends : before = [] ∨ ∃ earlier, before = earlier ++ ['\n']) (hline : '\n' ∉ line)
    {column : Nat} (hcolumn : column ≤ line.length) :
    (ofText text).offset? (before.count '\n' + 1) column =
      some (byteLength (before ++ line.take column)) := by
  -- The line goes on up to the first line feed of the rest.
  obtain ⟨further, after, rfl, hfurther, hafter⟩ :=
    exists_append_of_le_count (Nat.zero_le (rest.count '\n'))
  have hisLine : IsLine text.toList before (line ++ further) after := by
    refine ⟨by rw [h, List.append_assoc], hends, hafter, ?_⟩
    rw [List.mem_append, not_or]
    exact ⟨hline, List.count_eq_zero.1 hfurther⟩
  rw [offset?_of_isLine hisLine, List.append_assoc, List.take_append_of_le_length hcolumn]

/-- The place behind the first characters of a text is found at their length. So a place that was
counted through the text is found again by the index. -/
theorem offset?_afterAll {front rest : List Char} (h : text.toList = front ++ rest) :
    (ofText text).offset? (Position.first.afterAll front).line
        (Position.first.afterAll front).column = some (byteLength front) := by
  obtain ⟨before, line, rfl, hline, hends⟩ := exists_lastLine front
  -- On the first line columns are counted from the start of the text, on others from the line feed.
  have hplace : Position.first.afterAll (before ++ line) =
      ⟨before.count '\n' + 1, line.length⟩ := by
    rcases hends with rfl | hends
    · rw [List.nil_append, Position.afterAll_of_not_mem _ hline]
      show Position.mk 1 (0 + line.length) = _
      rw [Nat.zero_add]
      rfl
    · rw [Position.afterAll_of_ends _ hends hline, Nat.add_comm]
      rfl
  rw [List.append_assoc] at h
  rw [hplace, offset?_ofText h hends hline (Nat.le_refl _), List.take_length]

end LineIndex

end Arborist
