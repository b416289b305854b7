import Arborist.Glob.Basic

/-!
# `Arborist.Proofs.Glob.Basic`: what a wildcard pattern matches

Matching keeps the rests of a text that may follow. What a token matches is said here by `Matches`,
without the rests, and what a pattern matches by the parts of the text that its tokens match one
after the other. `Glob.accepts_iff` says that the two agree.
-/

set_option autoImplicit false

namespace Arborist

namespace GlobToken

/-- The token stands for the text. -/
def Matches : GlobToken → (text : List Char) → Prop
  | .char expected, text => text = [expected]
  | .single slash, text => ∃ c, (slash = true ∨ c ≠ '/') ∧ text = [c]
  | .oneOf negated ranges, text =>
    ∃ c, ((∃ range ∈ ranges, range.1 ≤ c ∧ c ≤ range.2) ↔ negated = false) ∧ text = [c]
  | .run slash, text => slash = true ∨ '/' ∉ text
  | .directories, text => text = [] ∨ ∃ names, text = names ++ ['/']

/-- What is left behind one character that passes the test. -/
theorem mem_restBehind_iff {p : Char → Bool} {cs rest : List Char} :
    rest ∈ restBehind p cs ↔ ∃ c, p c = true ∧ cs = c :: rest := by
  cases cs with
  | nil => simp [restBehind]
  | cons c cs => by_cases hp : p c = true <;> grind [restBehind]

/-- What is left behind any number of characters, possibly none, that all pass the test. The rests
are those behind the beginnings that a star can stand for. -/
theorem mem_restsWhile_iff {p : Char → Bool} {cs rest : List Char} :
    rest ∈ restsWhile p cs ↔ ∃ front, (∀ c ∈ front, p c = true) ∧ cs = front ++ rest := by
  induction cs with
  | nil =>
      rw [restsWhile, List.mem_singleton]
      constructor
      · rintro rfl
        exact ⟨[], List.forall_mem_nil _, rfl⟩
      · rintro ⟨front, -, hcs⟩
        exact (List.append_eq_nil_iff.1 hcs.symm).2
  | cons c cs ih =>
      rw [restsWhile, List.mem_cons]
      constructor
      · -- Nothing is passed over, or `c` is, if it passes the test.
        rintro (rfl | hmem)
        · exact ⟨[], List.forall_mem_nil _, rfl⟩
        · split at hmem
          · rename_i hc
            obtain ⟨front, hfront, rfl⟩ := ih.1 hmem
            exact ⟨c :: front, List.forall_mem_cons.2 ⟨hc, hfront⟩, rfl⟩
          · cases hmem
      · rintro ⟨front, hfront, hcs⟩
        cases front with
        | nil => exact .inl hcs.symm
        | cons d front =>
            obtain ⟨rfl, rfl⟩ := List.cons.inj hcs
            obtain ⟨hc, hfront⟩ := List.forall_mem_cons.1 hfront
            rw [if_pos hc]
            exact .inr (ih.2 ⟨front, hfront, rfl⟩)

/-- What is left behind a slash, whichever slash of the text it is. Two stars with a slash behind
them can stand for all that is in front. -/
theorem mem_restsBehindSlash_iff {cs rest : List Char} :
    rest ∈ restsBehindSlash cs ↔ ∃ front, cs = front ++ '/' :: rest := by
  induction cs with
  | nil => simp [restsBehindSlash]
  | cons c cs ih =>
      have hcons : (∃ front, c :: cs = front ++ '/' :: rest) ↔
          (c = '/' ∧ cs = rest) ∨ ∃ front, cs = front ++ '/' :: rest := by
        constructor
        · rintro ⟨front, hcs⟩
          cases front with
          | nil => exact .inl (List.cons.inj hcs)
          | cons d front => exact .inr ⟨front, (List.cons.inj hcs).2⟩
        · rintro (⟨rfl, rfl⟩ | ⟨front, rfl⟩)
          · exact ⟨[], rfl⟩
          · exact ⟨c :: front, rfl⟩
      rw [hcons, ← ih, restsBehindSlash]
      by_cases hc : c = '/' <;> simp [hc, eq_comm]

/-- The rests behind a token are what is left when the token has matched. One case for each kind of
token, from the three lemmas before. -/
theorem mem_rests_iff {token : GlobToken} {cs rest : List Char} :
    rest ∈ token.rests cs ↔ ∃ front, token.Matches front ∧ cs = front ++ rest := by
  cases token with
  | char expected => simp [rests, mem_restBehind_iff, Matches]
  | single slash =>
      rw [rests, mem_restBehind_iff]
      constructor
      · rintro ⟨c, hc, rfl⟩
        exact ⟨[c], ⟨c, by simpa using hc, rfl⟩, rfl⟩
      · rintro ⟨_, ⟨c, hc, rfl⟩, rfl⟩
        exact ⟨c, by simpa using hc, rfl⟩
  | oneOf negated ranges =>
      rw [rests, mem_restBehind_iff]
      constructor
      · rintro ⟨c, hc, rfl⟩
        exact ⟨[c], ⟨c, by cases negated <;> simpa using hc, rfl⟩, rfl⟩
      · rintro ⟨_, ⟨c, hc, rfl⟩, rfl⟩
        exact ⟨c, by cases negated <;> simpa using hc, rfl⟩
  -- A star stops at slashes unless it may pass them, and then every character is allowed.
  | run slash =>
      rw [rests, mem_restsWhile_iff]
      have hall : ∀ front : List Char,
          (∀ c ∈ front, (slash || decide (c ≠ '/')) = true) ↔ slash = true ∨ '/' ∉ front := by
        intro front
        cases slash <;> simp [List.forall_mem_ne']
      simp only [hall, Matches]
  -- No directory at all, or names up to and including some slash.
  | directories =>
      rw [rests, List.mem_cons, mem_restsBehindSlash_iff]
      constructor
      · rintro (rfl | ⟨front, rfl⟩)
        · exact ⟨[], .inl rfl, rfl⟩
        · exact ⟨front ++ ['/'], .inr ⟨front, rfl⟩, by simp⟩
      · rintro ⟨_, rfl | ⟨names, rfl⟩, rfl⟩
        · exact .inl rfl
        · exact .inr ⟨names, by simp⟩

end GlobToken

namespace Glob

/-- The tokens stand for the parts of the text in their order. -/
def Matches : (glob : Glob) → (text : List Char) → Prop
  | [], text => text = []
  | token :: glob, text =>
    ∃ front, token.Matches front ∧ ∃ back, Matches glob back ∧ text = front ++ back

/-- The rests behind a pattern are what is left when its tokens have matched, from any of the
starts. Rests that are found in several ways are kept once, which does not change which ones there
are. -/
theorem mem_rests_iff {glob : Glob} {found : List (List Char)} {rest : List Char} :
    rest ∈ glob.rests found ↔
      ∃ start ∈ found, ∃ front, glob.Matches front ∧ start = front ++ rest := by
  induction glob generalizing found with
  | nil => simp [rests, Matches]
  | cons token glob ih =>
      have hstep : rest ∈ rests (token :: glob) found ↔
          rest ∈ rests glob (found.flatMap token.rests).eraseDups := Iff.rfl
      rw [hstep, ih]
      -- From each start, the first token leaves some rests, and the pattern behind it goes on from
      -- there.
      simp only [List.mem_eraseDups, List.mem_flatMap, GlobToken.mem_rests_iff, Matches]
      constructor
      · rintro ⟨_, ⟨start, hstart, front, hfront, rfl⟩, back, hback, rfl⟩
        exact ⟨_, hstart, front ++ back, ⟨front, hfront, back, hback, rfl⟩, by simp⟩
      · rintro ⟨_, hstart, _, ⟨front, hfront, back, hback, rfl⟩, rfl⟩
        exact ⟨back ++ rest, ⟨_, hstart, front, hfront, by simp⟩, back, hback, rfl⟩

/-- A pattern is found to match exactly the texts that its tokens stand for. The search through
rests never has to go back, so this is where it is shown to miss nothing. -/
theorem accepts_iff {glob : Glob} {text : List Char} :
    glob.accepts text = true ↔ glob.Matches text := by
  simp [accepts, mem_rests_iff]

/-- Two patterns one behind the other match a text that can be cut in two parts for them. There may
be more than one such cut. -/
theorem matches_append {first second : Glob} {text : List Char} :
    Matches (first ++ second) text ↔
      ∃ front, first.Matches front ∧ ∃ back, second.Matches back ∧ text = front ++ back := by
  induction first generalizing text with
  | nil => simp [Matches]
  | cons token first ih =>
      simp only [List.cons_append, Matches, ih]
      constructor
      · rintro ⟨one, hone, _, ⟨front, hfront, back, hback, rfl⟩, rfl⟩
        exact ⟨one ++ front, ⟨one, hone, front, hfront, rfl⟩, back, hback, by simp⟩
      · rintro ⟨_, ⟨one, hone, front, hfront, rfl⟩, back, hback, rfl⟩
        exact ⟨one, hone, front ++ back, ⟨front, hfront, back, hback, rfl⟩, by simp⟩

/-- Any number of directories before any number of directories are directories. So `**/` several
times in a row matches what it matches once. -/
theorem matches_replicate_directories {times : Nat} {text : List Char} :
    Matches (List.replicate times .directories) text ↔
      text = [] ∨ 0 < times ∧ ∃ names, text = names ++ ['/'] := by
  induction times generalizing text with
  | zero => simp [Matches]
  | succ times ih =>
      simp only [List.replicate_succ, Matches, ih, GlobToken.Matches]
      constructor
      · -- Nothing or directories for the first, and nothing or directories for the others.
        rintro ⟨_, rfl | ⟨outer, rfl⟩, _, rfl | ⟨-, inner, rfl⟩, rfl⟩
        · exact .inl rfl
        · exact .inr ⟨Nat.succ_pos _, inner, rfl⟩
        · exact .inr ⟨Nat.succ_pos _, outer, by simp⟩
        · exact .inr ⟨Nat.succ_pos _, outer ++ '/' :: inner, by simp⟩
      · rintro (rfl | ⟨-, names, rfl⟩)
        · exact ⟨[], .inl rfl, [], .inl rfl, rfl⟩
        · exact ⟨names ++ ['/'], .inr ⟨names, rfl⟩, [], .inl rfl, by simp⟩

end Glob

end Arborist
