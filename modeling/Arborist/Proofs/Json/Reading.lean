import Arborist.Proofs.Json.Layout
import Mathlib.Tactic.SplitIfs

/-!
# `Arborist.Proofs.Json.Reading`: reading what was written

`Plain.read?_eq`: whatever white space a text puts around the tokens of a plain value, the reader
returns that value. `Reads` is the statement that carries the induction. It reads one value in the
middle of a text, leaves the tokens behind it, and needs no more steps than the value has tokens;
`read?` starts with more, because no token is empty. The last section undoes the writing of lists,
options and records.

Only a number can swallow what follows it, so `Closing` restricts the token behind a value to those
that can end one: a comma, a closing bracket or brace, or none.
-/

set_option autoImplicit false

namespace Arborist.Json

/-! ### Strings -/

/-- A digit of base 16 is read back. -/
theorem hexDigit?_hexChar : ∀ n < 16, hexDigit? (hexChar n) = some n := by decide

/-- A character that needs no escape is read as it is, and the reader goes on behind it. These are
all but the quote, the backslash and the control characters. -/
theorem stringBody?_plain {c : Char} (hquote : c ≠ '"') (hbackslash : c ≠ '\\')
    (hcontrol : ¬ c.toNat < 0x20) (steps : Nat) (rest : List Char) :
    stringBody? (steps + 1) (c :: rest) = do
      let (body, rest) ← stringBody? steps rest
      return (c :: body, rest) := by
  rw [stringBody?]
  · simp [hbackslash, hcontrol]
  · exact hquote
  · exact fun _ hc => absurd hc hbackslash
  · exact fun _ _ hc => absurd hc hbackslash

/-- An escape is at least as long as its character, so the steps that the text allows are enough for
it. -/
theorem length_le_escaped (cs : List Char) : cs.length ≤ (cs.flatMap escapeChar).length := by
  induction cs with
  | nil => exact Nat.le_refl _
  | cons c cs ih =>
      have hc : 0 < (escapeChar c).length := by
        unfold escapeChar
        split_ifs <;> exact Nat.succ_pos _
      simp only [List.flatMap_cons, List.length_append, List.length_cons]
      omega

/-- A control character is read back from its number. Its first two digits are zeros, and it is no
half of a surrogate pair. -/
theorem unicodeEscape?_control {c : Char} (hcontrol : c.toNat < 0x20) (rest : List Char) :
    unicodeEscape? ('0' :: '0' :: hexChar (c.toNat / 16) :: hexChar (c.toNat % 16) :: rest) =
      some (c, rest) := by
  have hzero : hexDigit? '0' = some 0 := by decide
  have hquad : hexQuad? ('0' :: '0' :: hexChar (c.toNat / 16) :: hexChar (c.toNat % 16) :: rest) =
      some (c.toNat, rest) := by
    simp only [hexQuad?, hzero, hexDigit?_hexChar (c.toNat / 16) (by omega),
      hexDigit?_hexChar (c.toNat % 16) (by omega)]
    simp only [Option.bind_eq_bind, Option.bind_some, Option.pure_def, Option.some.injEq,
      Prod.mk.injEq, and_true]
    omega
  -- Numbers of surrogates are far beyond those of control characters.
  have hlow : ¬ (0xD800 ≤ c.toNat ∧ c.toNat < 0xDC00) := by omega
  have hhigh : ¬ (0xDC00 ≤ c.toNat ∧ c.toNat < 0xE000) := by omega
  simp [unicodeEscape?, hquad, hlow, hhigh, Char.ofNat_toNat]

/-- An escaped character is read back, in one step. One case for each escape, and the last one for
characters that have none. -/
theorem stringBody?_escapeChar (steps : Nat) (c : Char) (rest : List Char) :
    stringBody? (steps + 1) (escapeChar c ++ rest) = do
      let (body, rest) ← stringBody? steps rest
      return (c :: body, rest) := by
  have hofNat : ∀ n, (c.toNat == n) = true → c = Char.ofNat n := by
    intro n hn
    rw [← beq_iff_eq.1 hn, Char.ofNat_toNat]
  unfold escapeChar
  split_ifs with hquote hbackslash hfeed hreturn htab hbackspace hform hcontrol
  · obtain rfl := beq_iff_eq.1 hquote
    rfl
  · obtain rfl := beq_iff_eq.1 hbackslash
    rfl
  · obtain rfl := beq_iff_eq.1 hfeed
    rfl
  · obtain rfl := beq_iff_eq.1 hreturn
    rfl
  · obtain rfl := beq_iff_eq.1 htab
    rfl
  · -- Two escapes are chosen by the number of the character, for which there is no literal.
    obtain rfl := hofNat 8 hbackspace
    rfl
  · obtain rfl := hofNat 12 hform
    rfl
  · simp only [List.cons_append, List.nil_append, stringBody?, unicodeEscape?_control hcontrol]
    rfl
  · -- None of the tests was true, so the character was written as it is.
    exact stringBody?_plain (by simpa using hquote) (by simpa using hbackslash) hcontrol _ _

/-- A quoted string is read back up to its closing quote, given more steps than it has
characters. -/
theorem stringBody?_quoted {steps : Nat} {cs : List Char} (h : cs.length < steps)
    (rest : List Char) :
    stringBody? steps (cs.flatMap escapeChar ++ '"' :: rest) = some (cs, rest) := by
  induction cs generalizing steps with
  | nil =>
      cases steps with
      | zero => omega
      | succ steps => rfl
  | cons c cs ih =>
      -- An escape takes one step, however many characters it has.
      cases steps with
      | zero => omega
      | succ steps =>
          rw [List.flatMap_cons, List.append_assoc, stringBody?_escapeChar,
            ih (by simpa using h)]
          rfl

/-! ### Numbers -/

/-- The text does not go on as a number. -/
def EndsNumber (rest : List Char) : Prop :=
  ∀ c ∈ rest.head?, c.isDigit = false ∧ c ≠ '.' ∧ c ≠ 'e' ∧ c ≠ 'E'

namespace EndsNumber

variable {rest : List Char}

/-- The digits of a number end where its text ends. What may stand behind a number is no digit. -/
theorem takeWhile_append (h : EndsNumber rest) {digits : List Char}
    (hdigits : ∀ c ∈ digits, c.isDigit = true) :
    (digits ++ rest).takeWhile Char.isDigit = digits ∧
      (digits ++ rest).dropWhile Char.isDigit = rest := by
  rw [List.takeWhile_append_of_pos hdigits, List.dropWhile_append_of_pos hdigits]
  cases rest with
  | nil => simp
  | cons c rest =>
      have hc := (h c rfl).1
      simp [hc]

/-- There is no fraction behind it. -/
theorem fractionPart?_eq (h : EndsNumber rest) : fractionPart? rest = some ([], rest) := by
  cases rest with
  | nil => rfl
  | cons c rest =>
      rw [fractionPart?]
      exact fun _ heq => (h c rfl).2.1 (List.cons.inj heq).1

/-- Nor an exponent. -/
theorem exponentPart?_eq (h : EndsNumber rest) : exponentPart? rest = some ([], rest) := by
  cases rest with
  | nil => rfl
  | cons c rest =>
      obtain ⟨-, -, he, hE⟩ := h c rfl
      simp [exponentPart?, he, hE]

end EndsNumber

/-- The value of the digits of a number is that number. -/
theorem digitsValue_toDigits (n : Nat) : digitsValue (Nat.toDigits 10 n) = n := by
  have hvalue := @Nat.ofDigitChars_ten_toDigits n
  rw [Nat.ofDigitChars] at hvalue
  simpa only [digitsValue, Nat.mul_comm] using hvalue

/-- A positive number does not start with a zero. The reader does not accept a number that does,
unless it is zero. -/
theorem head?_toDigits {n : Nat} (h : 0 < n) : (Nat.toDigits 10 n).head? ≠ some '0' := by
  induction n using Nat.strongRecOn with
  | ind n ih =>
      rw [Nat.toDigits_eq_if (by decide)]
      -- A single digit is the number itself; with more of them, the first is that of `n / 10`.
      split
      · rename_i hlt
        intro hzero
        have hchar := congrArg Char.toNat (Option.some.inj hzero)
        rw [Nat.toNat_digitChar_of_lt_ten hlt] at hchar
        have : '0'.toNat = 48 := rfl
        omega
      · rw [List.head?_append, Option.or_of_isSome (List.isSome_head?.2 Nat.toDigits_ne_nil)]
        exact ih (n / 10) (by omega) (by omega)

/-- A number is written with digits only. -/
theorem isDigit_of_mem_toDigits {n : Nat} {c : Char} (h : c ∈ Nat.toDigits 10 n) :
    c.isDigit = true :=
  Nat.isDigit_of_mem_toDigits (by decide) (by decide) h

/-- The digits of a number in range are read back, with and without a minus sign in front. A zero is
only allowed in front if it is all there is. -/
theorem number?_toDigits {negative : Bool} {n : Nat} {rest : List Char} (hrest : EndsNumber rest)
    (hrange : (if negative then 0 < n && n ≤ Nat.pow 2 63 else n < Nat.pow 2 64) = true) :
    number? negative (Nat.toDigits 10 n ++ rest) =
      some (.int (if negative then - (n : Int) else n), rest) := by
  obtain ⟨htake, hdrop⟩ := hrest.takeWhile_append fun _ => isDigit_of_mem_toDigits (n := n)
  have hnormal : ((Nat.toDigits 10 n).isEmpty || ((Nat.toDigits 10 n).length > 1 &&
      (Nat.toDigits 10 n).head? == some '0')) = false := by
    rcases Nat.eq_zero_or_pos n with rfl | hpos
    · rfl
    · simp [Nat.toDigits_ne_nil, head?_toDigits hpos]
  simp [number?, htake, hdrop, hnormal, hrest.fractionPart?_eq, hrest.exponentPart?_eq,
    digitsValue_toDigits, hrange]

/-- A digit differs from every character that is none. -/
theorem ne_of_isDigit {c other : Char} (hc : c.isDigit = true) (hother : other.isDigit = false) :
    c ≠ other := by
  rintro rfl
  simp [hother] at hc

/-- The text of a number starts with a digit, which is no white space. -/
theorem exists_digit_cons (n : Nat) :
    ∃ c digits, Nat.toDigits 10 n = c :: digits ∧ c.isDigit = true ∧ isBlank c = false := by
  obtain ⟨c, digits, hdigits⟩ := List.exists_cons_of_ne_nil (@Nat.toDigits_ne_nil n 10)
  have hc : c.isDigit = true := isDigit_of_mem_toDigits (n := n) (by simp [hdigits])
  exact ⟨c, digits, hdigits, hc, by simp [isBlank, ne_of_isDigit hc]⟩

/-- A text that starts with a digit is read as a number, because no other kind of value starts with
one. -/
theorem value?_digit {steps : Nat} {c : Char} {text rest : List Char} (hc : c.isDigit = true)
    (htext : skipBlanks text = c :: rest) :
    value? (steps + 1) text = number? false (c :: rest) := by
  rw [value?, htext]
  -- Only the last case has no character of its own.
  split
  case h_8 => rfl
  all_goals exact absurd (List.cons.inj ‹_›).1 (ne_of_isDigit hc (by decide))

/-! ### Reading -/

/-- A number from zero on is one token. -/
theorem tokens_nat (n : Nat) : tokens (.int n) = [Nat.toDigits 10 n] := by
  rw [tokens, Int.toString_eq_repr]
  exact congrArg (fun digits => [digits]) Nat.toList_repr

/-- A number below zero is one token too, with its sign. -/
theorem tokens_negSucc (n : Nat) :
    tokens (.int (.negSucc n)) = ['-' :: Nat.toDigits 10 (n + 1)] := by
  rw [tokens, Int.toString_eq_repr, Int.repr, String.toList_append, Nat.toList_repr]
  rfl

/-- The first token of a value tells it from white space and from the end of an array. One case for
each form of a value. -/
theorem Plain.tokens_eq_cons {j : Json} (h : j.Plain) :
    ∃ c token ts, tokens j = (c :: token) :: ts ∧ isBlank c = false ∧ c ≠ ']' := by
  cases h with
  | null => exact ⟨'n', _, _, by rw [tokens]; rfl, by decide, by decide⟩
  | bool value =>
      cases value with
      | false => exact ⟨'f', _, _, by rw [tokens]; rfl, by decide, by decide⟩
      | true => exact ⟨'t', _, _, by rw [tokens]; rfl, by decide, by decide⟩
  -- A number begins with one of ten digits, so its first character is known only to be a digit.
  | @nat n =>
      obtain ⟨c, digits, hdigits, hc, hblank⟩ := exists_digit_cons n
      exact ⟨c, digits, [], by rw [tokens_nat, hdigits], hblank, ne_of_isDigit hc (by decide)⟩
  | neg => exact ⟨'-', _, _, tokens_negSucc _, by decide, by decide⟩
  | string value => exact ⟨'"', _, _, by rw [tokens, toList_quote], by decide, by decide⟩
  | @array elements =>
      cases elements with
      | nil => exact ⟨'[', _, _, by rw [tokens], by decide, by decide⟩
      | cons => exact ⟨'[', _, _, by rw [tokens], by decide, by decide⟩
  | @object members =>
      cases members with
      | nil => exact ⟨'\x7b', _, _, by rw [tokens], by decide, by decide⟩
      | cons => exact ⟨'\x7b', _, _, by rw [tokens], by decide, by decide⟩

/-- The first of these tokens, if there is one, can stand behind a value. -/
def Closing (ts : List (List Char)) : Prop :=
  ∀ token ∈ ts.head?, token = [','] ∨ token = [']'] ∨ token = ['\x7d']

/-- Behind a value there is white space, a mark that ends it, or nothing, and none of these goes on
a number. -/
theorem Closing.endsNumber {ts : List (List Char)} {rest : List Char} (h : Closing ts)
    (hrest : Spaced ts rest) : EndsNumber rest := by
  have hblank : ∀ {c : Char}, isBlank c = true →
      c.isDigit = false ∧ c ≠ '.' ∧ c ≠ 'e' ∧ c ≠ 'E' := by
    intro c hc
    simp only [isBlank, Bool.or_eq_true, beq_iff_eq] at hc
    rcases hc with ((rfl | rfl) | rfl) | rfl <;> decide
  intro c hc
  cases hrest with
  | nil hblanks => exact hblank (hblanks c (List.mem_of_mem_head? hc))
  | @cons blanks token text ts hblanks _ =>
      cases blanks with
      -- No white space: the next token is a comma or a closing bracket.
      | nil =>
          rcases h token rfl with rfl | rfl | rfl <;> (obtain rfl := Option.some.inj hc; decide)
      | cons b blanks =>
          obtain rfl := Option.some.inj hc
          exact hblank (hblanks b (by simp))

/-- The value is read back from every text of its tokens, up to where the next ones start. -/
def Reads (j : Json) : Prop :=
  ∀ (steps : Nat) {ts : List (List Char)} {text : List Char}, (tokens j).length ≤ steps →
    Spaced (tokens j ++ ts) text → Closing ts →
    ∃ rest, value? steps text = some (j, rest) ∧ Spaced ts rest

/-- A quoted string is read back. There are enough steps for it, since each character of the string
takes at least one character of the text. -/
theorem Spaced.quoted {s : String} {ts : List (List Char)} {text : List Char}
    (h : Spaced ((quote s).toList :: ts) text) :
    ∃ body rest, skipBlanks text = '"' :: body ∧
      stringBody? (body.length + 1) body = some (s.toList, rest) ∧ Spaced ts rest := by
  rw [toList_quote] at h
  obtain ⟨rest, htext, hrest⟩ := h.skip (by decide)
  refine ⟨_, rest, htext, ?_, hrest⟩
  rw [List.append_assoc, List.singleton_append]
  have hlength := length_le_escaped s.toList
  refine stringBody?_quoted ?_ rest
  simp only [List.length_append, List.length_cons]
  omega

/-- Elements are read back to their closing bracket, if each of them is read back by itself. What is
behind the bracket is left for others to read. -/
theorem elements?_reads {first : Json} {others : List Json} (hfirst : first.Reads)
    (hothers : ∀ j ∈ others, j.Reads) {steps : Nat} {ts : List (List Char)} {text : List Char}
    (hsteps : (tokens first).length + (elementTokens others).length ≤ steps)
    (htext : Spaced (tokens first ++ (elementTokens others ++ ts)) text) :
    ∃ rest, elements? steps text = some (first :: others, rest) ∧ Spaced ts rest := by
  -- Each round takes a step, which the token behind the element pays for: the bracket in the first
  -- case, the comma in the second.
  induction others generalizing first steps text with
  | nil =>
      simp only [elementTokens, List.length_singleton] at hsteps htext
      obtain ⟨steps, rfl⟩ := Nat.exists_eq_succ_of_ne_zero (n := steps) (by omega)
      obtain ⟨behind, hvalue, hbehind⟩ := hfirst steps (by omega) htext (by simp [Closing])
      obtain ⟨rest, hskip, hrest⟩ := hbehind.skip (by decide)
      exact ⟨rest, by simp [elements?, hvalue, hskip], hrest⟩
  | cons second others ih =>
      simp only [elementTokens, List.cons_append, List.append_assoc, List.length_cons,
        List.length_append] at hsteps htext
      obtain ⟨steps, rfl⟩ := Nat.exists_eq_succ_of_ne_zero (n := steps) (by omega)
      obtain ⟨behind, hvalue, hbehind⟩ := hfirst steps (by omega) htext (by simp [Closing])
      obtain ⟨next, hskip, hnext⟩ := hbehind.skip (by decide)
      obtain ⟨rest, hread, hrest⟩ := @ih second (hothers second (by simp))
        (fun j hj => hothers j (by simp [hj])) steps _ (by omega) hnext
      exact ⟨rest, by simp [elements?, hvalue, hskip, hread], hrest⟩

/-- A member is read back, up to what tells whether another one follows: its name in quotes, the
colon, and its value. -/
theorem members?_reads_member {name : String} {value : Json} (hvalue : value.Reads) (steps : Nat)
    {ts : List (List Char)} {text : List Char} (hsteps : (tokens value).length ≤ steps)
    (htext : Spaced ((quote name).toList :: [':'] :: (tokens value ++ ts)) text)
    (hclosing : Closing ts) :
    ∃ behind, Spaced ts behind ∧ members? (steps + 1) text =
      match skipBlanks behind with
      | ',' :: rest => do
        let (others, rest) ← members? steps rest
        return ((name, value) :: others, rest)
      | '\x7d' :: rest => some ([(name, value)], rest)
      | _ => none := by
  obtain ⟨body, afterName, hquote, hname, hafterName⟩ := htext.quoted
  obtain ⟨afterColon, hcolon, hafterColon⟩ := hafterName.skip (by decide)
  obtain ⟨behind, hread, hbehind⟩ := hvalue steps hsteps hafterColon hclosing
  refine ⟨behind, hbehind, ?_⟩
  simp only [members?, hquote, hname, hcolon, List.nil_append, hread, Option.bind_eq_bind,
    Option.bind_some, String.ofList_toList]
  rfl

/-- Members are read back to their closing brace. The induction is that of `elements?_reads`. -/
theorem members?_reads {name : String} {first : Json} {others : List (String × Json)}
    (hfirst : first.Reads) (hothers : ∀ m ∈ others, m.2.Reads) {steps : Nat}
    {ts : List (List Char)} {text : List Char}
    (hsteps : (tokens first).length + (memberTokens others).length ≤ steps)
    (htext : Spaced ((quote name).toList :: [':'] ::
      (tokens first ++ (memberTokens others ++ ts))) text) :
    ∃ rest, members? steps text = some ((name, first) :: others, rest) ∧ Spaced ts rest := by
  induction others generalizing name first steps text with
  | nil =>
      simp only [memberTokens, List.length_singleton] at hsteps htext
      obtain ⟨steps, rfl⟩ := Nat.exists_eq_succ_of_ne_zero (n := steps) (by omega)
      obtain ⟨behind, hbehind, hstep⟩ :=
        members?_reads_member hfirst steps (by omega) htext (by simp [Closing])
      obtain ⟨rest, hskip, hrest⟩ := hbehind.skip (by decide)
      exact ⟨rest, by simp [hstep, hskip], hrest⟩
  | cons second others ih =>
      simp only [memberTokens, List.cons_append, List.append_assoc, List.length_cons,
        List.length_append] at hsteps htext
      obtain ⟨steps, rfl⟩ := Nat.exists_eq_succ_of_ne_zero (n := steps) (by omega)
      obtain ⟨behind, hbehind, hstep⟩ :=
        members?_reads_member hfirst steps (by omega) htext (by simp [Closing])
      -- A comma, and then the rest is read as members with `second` in front.
      obtain ⟨next, hskip, hnext⟩ := hbehind.skip (by decide)
      obtain ⟨rest, hread, hrest⟩ := @ih second.1 second.2 (hothers second (by simp))
        (fun m hm => hothers m (by simp [hm])) steps _ (by omega) hnext
      exact ⟨rest, by simp [hstep, hskip, hread], hrest⟩

/-- Every value has a token. -/
theorem tokens_ne_nil (j : Json) : tokens j ≠ [] := by
  fun_cases tokens <;> exact List.cons_ne_nil _ _

/-- A value has a token, so its reader is never out of steps; the cases below may start with one. -/
theorem reads_of_succ {j : Json}
    (h : ∀ (steps : Nat) {ts : List (List Char)} {text : List Char},
      (tokens j).length ≤ steps + 1 → Spaced (tokens j ++ ts) text → Closing ts →
      ∃ rest, value? (steps + 1) text = some (j, rest) ∧ Spaced ts rest) : j.Reads := by
  intro steps ts text hsteps htext hclosing
  have hpos := List.length_pos_iff.2 (tokens_ne_nil j)
  obtain ⟨steps, rfl⟩ := Nat.exists_eq_succ_of_ne_zero (n := steps) (by omega)
  exact h steps hsteps htext hclosing

namespace Reads

/-- `null` is read back. -/
theorem null : Reads .null := by
  refine reads_of_succ fun steps ts text _ htext _ => ?_
  have htext : Spaced (['n', 'u', 'l', 'l'] :: ts) text := by simpa [tokens] using htext
  obtain ⟨rest, hskip, hrest⟩ := htext.skip (by decide)
  exact ⟨rest, by simp [value?, hskip, word?], hrest⟩

/-- Both truth values are read back, each as a word of its own. -/
theorem bool (value : Bool) : Reads (.bool value) := by
  refine reads_of_succ fun steps ts text _ htext _ => ?_
  cases value with
  | false =>
      have htext : Spaced (['f', 'a', 'l', 's', 'e'] :: ts) text := by simpa [tokens] using htext
      obtain ⟨rest, hskip, hrest⟩ := htext.skip (by decide)
      exact ⟨rest, by simp [value?, hskip, word?], hrest⟩
  | true =>
      have htext : Spaced (['t', 'r', 'u', 'e'] :: ts) text := by simpa [tokens] using htext
      obtain ⟨rest, hskip, hrest⟩ := htext.skip (by decide)
      exact ⟨rest, by simp [value?, hskip, word?], hrest⟩

/-- So is a number from zero on that has 64 bits. The token behind it ends it. -/
theorem nat {n : Nat} (h : n < Nat.pow 2 64) : Reads (.int n) := by
  refine reads_of_succ fun steps _ _ _ htext hclosing => ?_
  obtain ⟨c, digits, hdigits, hc, hblank⟩ := exists_digit_cons n
  rw [tokens_nat, hdigits] at htext
  obtain ⟨rest, hskip, hrest⟩ := htext.skip hblank
  refine ⟨rest, ?_, hrest⟩
  rw [value?_digit hc hskip, ← List.cons_append, ← hdigits]
  exact number?_toDigits (hclosing.endsNumber hrest) (decide_eq_true h)

/-- So is a number below zero of 64 bits with the sign, down to the least of them. -/
theorem neg {n : Nat} (h : n < Nat.pow 2 63) : Reads (.int (.negSucc n)) := by
  refine reads_of_succ fun steps _ _ _ htext hclosing => ?_
  rw [tokens_negSucc] at htext
  obtain ⟨rest, hskip, hrest⟩ := htext.skip (by decide)
  refine ⟨rest, ?_, hrest⟩
  rw [value?, hskip]
  have hrange : (0 < n + 1 && n + 1 ≤ Nat.pow 2 63) = true :=
    Bool.and_eq_true_iff.2 ⟨decide_eq_true (Nat.succ_pos n), decide_eq_true h⟩
  exact number?_toDigits (hclosing.endsNumber hrest) hrange

/-- So is every string, whatever is in it. -/
theorem string (value : String) : Reads (.string value) := by
  refine reads_of_succ fun steps _ _ _ htext _ => ?_
  rw [tokens] at htext
  obtain ⟨body, rest, hquote, hbody, hrest⟩ := htext.quoted
  exact ⟨rest, by simp [value?, hquote, hbody], hrest⟩

/-- An array is read back if its elements are. An empty one is told by its closing bracket, which no
element starts with. -/
theorem array {elements : List Json} (hplain : ∀ j ∈ elements, j.Plain)
    (h : ∀ j ∈ elements, j.Reads) : Reads (.array elements) := by
  refine reads_of_succ fun steps _ _ hsteps htext _ => ?_
  cases elements with
  | nil =>
      rw [tokens] at htext
      obtain ⟨inside, hopen, hinside⟩ := htext.skip (by decide)
      obtain ⟨rest, hclose, hrest⟩ := hinside.skip (by decide)
      exact ⟨rest, by simp [value?, hopen, hclose], hrest⟩
  | cons first others =>
      simp only [tokens, List.cons_append, List.append_assoc, List.length_cons,
        List.length_append] at hsteps htext
      obtain ⟨inside, hopen, hinside⟩ := htext.skip (by decide)
      obtain ⟨rest, hread, hrest⟩ := elements?_reads (h first (by simp))
        (fun j hj => h j (by simp [hj])) (Nat.le_of_succ_le_succ hsteps) hinside
      refine ⟨rest, ?_, hrest⟩
      -- The first element does not start with the bracket that ends an empty array.
      obtain ⟨c, token, ts, htokens, hblank, hc⟩ := (hplain first (by simp)).tokens_eq_cons
      rw [htokens] at hinside
      obtain ⟨_, hskip, _⟩ := hinside.skip hblank
      simp [value?, hopen, hskip, hc, hread]

/-- An object is read back if the values of its members are. Names may repeat, as nothing is looked
up while reading. -/
theorem object {members : List (String × Json)} (h : ∀ m ∈ members, m.2.Reads) :
    Reads (.object members) := by
  refine reads_of_succ fun steps _ _ hsteps htext _ => ?_
  cases members with
  | nil =>
      rw [tokens] at htext
      obtain ⟨inside, hopen, hinside⟩ := htext.skip (by decide)
      obtain ⟨rest, hclose, hrest⟩ := hinside.skip (by decide)
      exact ⟨rest, by simp [value?, hopen, hclose], hrest⟩
  | cons first others =>
      simp only [tokens, List.cons_append, List.append_assoc, List.length_cons,
        List.length_append] at hsteps htext
      obtain ⟨inside, hopen, hinside⟩ := htext.skip (by decide)
      obtain ⟨rest, hread, hrest⟩ := members?_reads (h first (by simp))
        (fun m hm => h m (by simp [hm])) (by omega : _ ≤ steps) hinside
      refine ⟨rest, ?_, hrest⟩
      -- The reader has to see that there is a member and no closing brace.
      obtain ⟨_, _, hskip, _⟩ := hinside.quoted
      simp [value?, hopen, hskip, hread]

end Reads

/-- Every plain value is read back from the middle of a text. The induction follows the value, with
one lemma for each kind. -/
theorem Plain.reads {j : Json} (h : j.Plain) : j.Reads := by
  induction h with
  | null => exact .null
  | bool value => exact .bool value
  | nat h => exact .nat h
  | neg h => exact .neg h
  | string value => exact .string value
  | array h ih => exact .array h ih
  | object _ ih => exact .object ih

/-! No token of a plain value is empty, so a text has at least as many characters. -/

/-- No token behind an element is empty, if those of the elements are not. The further ones are
commas and the bracket. -/
theorem elementTokens_nonempty {elements : List Json}
    (h : ∀ j ∈ elements, ∀ token ∈ tokens j, token ≠ []) :
    ∀ token ∈ elementTokens elements, token ≠ [] := by
  induction elements with
  | nil => simp [elementTokens]
  | cons first others ih =>
      simp only [List.forall_mem_cons] at h
      simp only [elementTokens, List.forall_mem_cons, List.forall_mem_append]
      exact ⟨by simp, h.1, ih h.2⟩

/-- The same for members, whose names have quotes around them, so that even an empty name makes a
token. -/
theorem memberTokens_nonempty {members : List (String × Json)}
    (h : ∀ m ∈ members, ∀ token ∈ tokens m.2, token ≠ []) :
    ∀ token ∈ memberTokens members, token ≠ [] := by
  induction members with
  | nil => simp [memberTokens]
  | cons first others ih =>
      simp only [List.forall_mem_cons] at h
      simp only [memberTokens, List.forall_mem_cons, List.forall_mem_append, toList_quote]
      exact ⟨by simp, by simp, by simp, h.1, ih h.2⟩

/-- No token of a plain value is empty. So there are no more tokens than characters, and the number
of steps that the reader allows is enough. -/
theorem Plain.tokens_nonempty {j : Json} (h : j.Plain) : ∀ token ∈ tokens j, token ≠ [] := by
  induction h with
  | null => simp [tokens]
  | bool value => cases value <;> simp [tokens]
  | nat => simp [tokens_nat, Nat.toDigits_ne_nil]
  | neg => simp [tokens_negSucc]
  | string value => simp [tokens, toList_quote]
  -- The brackets are tokens, and so are the commas between the tokens of the elements.
  | @array elements _ ih =>
      cases elements with
      | nil => simp [tokens]
      | cons first others =>
          simp only [List.forall_mem_cons] at ih
          simp only [tokens, List.forall_mem_cons, List.forall_mem_append]
          exact ⟨by simp, ih.1, elementTokens_nonempty ih.2⟩
  | @object members _ ih =>
      cases members with
      | nil => simp [tokens]
      | cons first others =>
          simp only [List.forall_mem_cons] at ih
          simp only [tokens, List.forall_mem_cons, List.forall_mem_append, toList_quote]
          exact ⟨by simp, by simp, by simp, ih.1, memberTokens_nonempty ih.2⟩

/-- A text of a plain value's tokens, whatever white space is between them, is read as that value.
The reader starts with more steps than the text has characters, and nothing is left behind the value
but white space. -/
theorem Plain.read?_eq {j : Json} (h : j.Plain) {text : String}
    (htext : Spaced (tokens j) text.toList) : read? text = some j := by
  have hlength := htext.length_le h.tokens_nonempty
  obtain ⟨rest, hread, hrest⟩ := h.reads (text.toList.length + 1) (Nat.le_succ_of_le hlength)
    (by rwa [List.append_nil]) (by simp [Closing])
  simp [read?, hread, hrest.skip_nil]

/-! ### Decoding

What a record's members are read with undoes what they were written with. -/

section Decoding

variable {α : Type} {encode : α → Json} {decode : Json → Option α}

/-- A member that is there is decoded. -/
@[simp] theorem required_some (j : Json) : required decode (some j) = decode j := rfl

/-- So is one that could have been left out. -/
@[simp] theorem withDefault_some (fallback : α) (j : Json) :
    withDefault fallback decode (some j) = decode j := rfl

/-- A number within its bound is decoded. -/
theorem asNatBelow?_ofNat {bound n : Nat} (h : n < bound) :
    asNatBelow? bound (ofNat n) = some n := by
  show (if n < bound then some n else none) = some n
  rw [if_pos h]

/-- A list is decoded if its values are. The order of the values is kept. -/
theorem asListOf?_ofList {values : List α} (h : ∀ a ∈ values, decode (encode a) = some a) :
    asListOf? decode (ofList encode values) = some values := by
  show (values.map encode).mapM decode = some values
  induction values with
  | nil => rfl
  | cons a values ih =>
      rw [List.forall_mem_cons] at h
      simp [h.1, ih h.2]

/-- An optional value is decoded if its value is and is never written as `null`. Otherwise it could
not be told from a value that is absent. -/
theorem asOption?_ofOption {value : Option α} (hnull : ∀ a, encode a ≠ .null)
    (h : ∀ a ∈ value, decode (encode a) = some a) :
    asOption? decode (ofOption encode value) = some value := by
  cases value with
  | none => rfl
  | some a =>
      rw [ofOption, asOption?, h a rfl, Option.map_some]
      exact hnull a

end Decoding

end Arborist.Json
