import Arborist.Text.Bytes

/-!
# `Arborist.Proofs.Text.Bytes`: offsets that fall between characters

`Text.dropBytes` and `Text.takeBytes` count bytes while they walk over characters. Each has one
equation in terms of plain lists: they succeed at `n` exactly where the text splits into two runs of
characters, the first of `n` bytes (`dropBytes_eq_some_iff`, `takeBytes_eq_some_iff`). Every other
fact about offsets goes through these two, and the recursion is not opened again.

* `isBoundary_iff`: the offsets between characters are the lengths of the prefixes of the text.
* `sliceChars_eq_some_iff`: a slice is the middle part of a split into three.
* `exists_sliceChars`: between two such offsets, in order, the slice exists.
-/

set_option autoImplicit false

namespace Arborist.Text

/-- No characters take no bytes. -/
@[simp] theorem byteLength_nil : byteLength [] = 0 := rfl

/-- The bytes of the first character, and those of the others. -/
@[simp] theorem byteLength_cons (c : Char) (cs : List Char) :
    byteLength (c :: cs) = c.utf8Size + byteLength cs := rfl

/-- Bytes add up, so the offset of a second piece of text is the length of the first. -/
@[simp] theorem byteLength_append (cs ds : List Char) :
    byteLength (cs ++ ds) = byteLength cs + byteLength ds := by
  induction cs with
  | nil => simp
  | cons c cs ih => rw [List.cons_append, byteLength_cons, byteLength_cons, ih, Nat.add_assoc]

/-- Every character takes a byte, so only the empty run takes none. -/
theorem byteLength_eq_zero_iff {cs : List Char} : byteLength cs = 0 ↔ cs = [] := by
  cases cs with
  | nil => simp
  | cons c cs =>
      have hc := c.utf8Size_pos
      simp only [byteLength_cons, reduceCtorEq, iff_false]
      omega

/-- `dropBytes` answers where the text splits after `n` bytes, with the part behind. There is no
answer past the end of the text, nor inside a character. -/
theorem dropBytes_eq_some_iff {cs rest : List Char} {n : Nat} :
    dropBytes cs n = some rest ↔ ∃ front, cs = front ++ rest ∧ byteLength front = n := by
  fun_induction dropBytes cs n with
  | case1 cs =>
      rw [Option.some.injEq]
      constructor
      · rintro rfl
        exact ⟨[], rfl, rfl⟩
      · rintro ⟨front, hsplit, hn⟩
        rwa [byteLength_eq_zero_iff.1 hn] at hsplit
  | case2 n =>
      simp only [reduceCtorEq, false_iff]
      rintro ⟨front, hsplit, hn⟩
      rw [(List.append_eq_nil_iff.1 hsplit.symm).1] at hn
      simp at hn
  | case3 c cs n hle ih =>
      rw [ih]
      constructor
      · rintro ⟨front, rfl, hn⟩
        exact ⟨c :: front, rfl, by rw [byteLength_cons, hn, Nat.add_sub_cancel' hle]⟩
      · rintro ⟨front, hsplit, hn⟩
        -- A front of at least one byte starts with `c`.
        cases front with
        | nil => simp at hn
        | cons d front =>
            obtain ⟨rfl, rfl⟩ := List.cons.inj hsplit
            rw [byteLength_cons] at hn
            exact ⟨front, rfl, by omega⟩
  | case4 c cs n hle =>
      simp only [reduceCtorEq, false_iff]
      rintro ⟨front, hsplit, hn⟩
      cases front with
      | nil => simp at hn
      | cons d front =>
          obtain ⟨rfl, -⟩ := List.cons.inj hsplit
          rw [byteLength_cons] at hn
          omega

/-- Where `dropBytes` finds the part behind, `takeBytes` finds the part before. A first character
takes at least one byte, so it is taken before the bytes are used up. -/
theorem takeBytes_append (front rest : List Char) :
    takeBytes (front ++ rest) (byteLength front) = some front := by
  induction front with
  | nil => cases rest <;> rfl
  | cons c front ih =>
      have hc := c.utf8Size_pos
      obtain ⟨n, hn⟩ : ∃ n, byteLength (c :: front) = n + 1 :=
        ⟨byteLength (c :: front) - 1, by rw [byteLength_cons]; omega⟩
      rw [hn, List.cons_append, takeBytes]
      rw [byteLength_cons] at hn
      rw [if_pos (by omega), show n + 1 - c.utf8Size = byteLength front by omega, ih]
      rfl

/-- `takeBytes` answers where the text splits after `n` bytes, with the part before. It has an
answer for the same numbers as `dropBytes`. -/
theorem takeBytes_eq_some_iff {cs front : List Char} {n : Nat} :
    takeBytes cs n = some front ↔ ∃ rest, cs = front ++ rest ∧ byteLength front = n := by
  constructor
  · intro h
    fun_induction takeBytes cs n generalizing front with
    | case1 cs => exact ⟨cs, by cases h; rfl, by cases h; rfl⟩
    | case2 n => cases h
    | case3 c cs n hle ih =>
        obtain ⟨tail, htail, rfl⟩ := Option.map_eq_some_iff.1 h
        obtain ⟨rest, rfl, hn⟩ := ih htail
        exact ⟨rest, rfl, by rw [byteLength_cons, hn, Nat.add_sub_cancel' hle]⟩
    | case4 c cs n hle => cases h
  · rintro ⟨rest, rfl, rfl⟩
    exact takeBytes_append front rest

/-- The offsets between characters are the lengths of the prefixes. Among them are zero and the
length of the whole text. -/
theorem isBoundary_iff {text : String} {offset : Nat} :
    isBoundary text offset = true ↔
      ∃ front rest, text.toList = front ++ rest ∧ byteLength front = offset := by
  rw [isBoundary, Option.isSome_iff_exists]
  constructor
  · rintro ⟨rest, h⟩
    obtain ⟨front, hsplit, hn⟩ := dropBytes_eq_some_iff.1 h
    exact ⟨front, rest, hsplit, hn⟩
  · rintro ⟨front, rest, hsplit, hn⟩
    exact ⟨rest, dropBytes_eq_some_iff.2 ⟨front, hsplit, hn⟩⟩

/-- The start of a text is a boundary. -/
theorem isBoundary_zero (text : String) : isBoundary text 0 = true :=
  isBoundary_iff.2 ⟨[], text.toList, rfl, rfl⟩

/-- A slice is the middle of a split into three; its ends count the bytes before and through it. So
a slice with inverted ends does not exist, and one with equal ends is empty. -/
theorem sliceChars_eq_some_iff {cs middle : List Char} {start stop : Nat} :
    sliceChars cs start stop = some middle ↔
      ∃ front back, cs = front ++ middle ++ back ∧ byteLength front = start ∧
        start + byteLength middle = stop := by
  rw [sliceChars]
  constructor
  · intro h
    split at h
    · rename_i hle
      -- The front is dropped first, and the middle is taken from what is left.
      obtain ⟨rest, hdrop, htake⟩ := Option.bind_eq_some_iff.1 h
      obtain ⟨front, rfl, hstart⟩ := dropBytes_eq_some_iff.1 hdrop
      obtain ⟨back, rfl, hmiddle⟩ := takeBytes_eq_some_iff.1 htake
      exact ⟨front, back, by simp, hstart, by omega⟩
    · cases h
  · rintro ⟨front, back, rfl, hstart, hstop⟩
    rw [if_pos (by omega), Option.bind_eq_some_iff]
    refine ⟨middle ++ back, dropBytes_eq_some_iff.2 ⟨front, by simp, hstart⟩, ?_⟩
    exact takeBytes_eq_some_iff.2 ⟨back, rfl, by omega⟩

/-- Two prefixes of one text extend each other in the order of their lengths in bytes. If the longer
one came first, it would be longer by characters that take no bytes. -/
theorem append_of_byteLength_le {front front' rest rest' : List Char}
    (h : front ++ rest = front' ++ rest') (hle : byteLength front ≤ byteLength front') :
    ∃ middle, front' = front ++ middle := by
  rcases List.append_eq_append_iff.1 h with ⟨middle, hfront', -⟩ | ⟨middle, hfront, -⟩
  · exact ⟨middle, hfront'⟩
  · have hzero : byteLength middle = 0 := by
      rw [hfront, byteLength_append] at hle
      omega
    refine ⟨[], ?_⟩
    rw [hfront, byteLength_eq_zero_iff.1 hzero]
    simp

/-- A text has one split after a number of bytes. So the part that an offset cuts off is determined
by the offset. -/
theorem append_inj_of_byteLength_eq {front front' rest rest' : List Char}
    (h : front ++ rest = front' ++ rest') (heq : byteLength front = byteLength front') :
    front = front' ∧ rest = rest' := by
  obtain ⟨middle, rfl⟩ := append_of_byteLength_le h (Nat.le_of_eq heq)
  have hzero : byteLength middle = 0 := by
    rw [byteLength_append] at heq
    omega
  rw [byteLength_eq_zero_iff.1 hzero, List.append_nil] at h ⊢
  exact ⟨rfl, List.append_cancel_left h⟩

/-- Between two offsets that fall between characters, in order, the slice exists. It is what the
longer of the two prefixes has more. -/
theorem exists_sliceChars {text : String} {start stop : Nat} (hle : start ≤ stop)
    (hstart : isBoundary text start = true) (hstop : isBoundary text stop = true) :
    ∃ middle, sliceChars text.toList start stop = some middle := by
  obtain ⟨front, rest, hsplit, rfl⟩ := isBoundary_iff.1 hstart
  obtain ⟨front', rest', hsplit', rfl⟩ := isBoundary_iff.1 hstop
  obtain ⟨middle, rfl⟩ := append_of_byteLength_le (hsplit.symm.trans hsplit') hle
  refine ⟨middle, sliceChars_eq_some_iff.2 ⟨front, rest', hsplit', rfl, ?_⟩⟩
  rw [byteLength_append]

end Arborist.Text
