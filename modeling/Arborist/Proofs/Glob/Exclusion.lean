import Arborist.Glob.Exclusion
import Arborist.Proofs.Glob.Basic
import Arborist.Proofs.Text.WhiteSpace

/-!
# `Arborist.Proofs.Glob.Exclusion`: names in exclusion patterns

`Reads` says what an exclusion pattern is made of, part by part with its token. When `**/` and then
`/**` are removed from the text of a pattern, something is left. If that has no star and no slash,
it is a name (`Reads.exists_names`): the pattern consists of the name, of some `**/` before it or
none, and of all that is below it or nothing.

What such a pattern matches follows from the three parts (`matches_names_iff`). Brackets are longer
than what they match, so a pattern with brackets does not match its own text. This is what
`Names.of_matches_between` uses to tell which patterns match every path with their name on it.
-/

set_option autoImplicit false

namespace Arborist.Glob

open Text

/-- The parts of an exclusion pattern from left to right, each with its token. What stands in
brackets is left open. -/
inductive Reads : (before : Option Char) → (text : List Char) → (glob : Glob) → Prop where
  | done {before : Option Char} : Reads before [] []
  | beneath {before : Option Char} (hbefore : before.all (· = '/') = true) :
      Reads before ['*', '*'] [.run true]
  | beneathSlash {before : Option Char} (hbefore : before.all (· = '/') = true) :
      Reads before ['*', '*', '/'] [.run true]
  | directories {before : Option Char} {text : List Char} {glob : Glob}
      (hbefore : before.all (· = '/') = true) (hne : text ≠ [])
      (hrest : Reads (some '/') text glob) :
      Reads before ('*' :: '*' :: '/' :: text) (.directories :: glob)
  | run {before : Option Char} {text : List Char} {glob : Glob} (hhead : text.head? ≠ some '*')
      (hrest : Reads (some '*') text glob) : Reads before ('*' :: text) (.run true :: glob)
  | single {before : Option Char} {text : List Char} {glob : Glob}
      (hrest : Reads (some '?') text glob) : Reads before ('?' :: text) (.single true :: glob)
  | oneOf {before : Option Char} {content text : List Char} {negated : Bool}
      {ranges : List CharRange} {glob : Glob} (hrest : Reads (some ']') text glob) :
      Reads before ('[' :: (content ++ ']' :: text)) (.oneOf negated ranges :: glob)
  | char {before : Option Char} {c : Char} {text : List Char} {glob : Glob}
      (hc : c ∉ ['*', '?', '[']) (hrest : Reads (some c) text glob) :
      Reads before (c :: text) (.char c :: glob)

/-- The same from any place of the reader; inside brackets, what closes them comes first. -/
def ReadsFrom : (state : ExclusionState) → (text : List Char) → (glob : Glob) → Prop
  | .outside before, text, glob => Reads before text glob
  | .inside negated _, text, glob =>
    ∃ content rest ranges behind, Reads (some ']') rest behind ∧
      text = content ++ ']' :: rest ∧ glob = .oneOf negated ranges :: behind

/-- A pattern that can be read is made of parts with their tokens. The induction follows the reader,
with one case for each of its equations, in their order: the end and the stars that stand for
directories (`case1` to `case6`), a lone star, a question mark, the start of brackets with and
without a negation, any other character (`case7` to `case11`), and what stands inside brackets
(`case12` to `case14`). -/
theorem readsFrom_of_exclusionFrom? {state : ExclusionState} {text : List Char} {glob : Glob}
    (h : exclusionFrom? state text = some glob) : ReadsFrom state text glob := by
  fun_induction exclusionFrom? state text generalizing glob with
  | case1 before =>
      cases h
      exact .done
  | case2 before hbefore =>
      cases h
      exact .beneath hbefore
  | case3 before hbefore =>
      cases h
      exact .beneathSlash hbefore
  | case4 before hbefore cs hne ih =>
      obtain ⟨rest, hrest, rfl⟩ := Option.map_eq_some_iff.1 h
      exact .directories hbefore hne (ih hrest)
  -- Two stars that do not stand between slashes are refused, from either side.
  | case5 => cases h
  | case6 => cases h
  | case7 before cs hhead ih =>
      obtain ⟨rest, hrest, rfl⟩ := Option.map_eq_some_iff.1 h
      refine .run ?_ (ih hrest)
      intro hstar
      obtain ⟨tail, rfl⟩ := List.head?_eq_some_iff.1 hstar
      exact hhead tail rfl
  | case8 before cs ih =>
      obtain ⟨rest, hrest, rfl⟩ := Option.map_eq_some_iff.1 h
      exact .single (ih hrest)
  | case9 before cs ih =>
      obtain ⟨content, rest, ranges, behind, hrest, rfl, rfl⟩ := ih h
      show Reads before ('[' :: (('!' :: content) ++ ']' :: rest)) _
      exact .oneOf hrest
  | case10 before cs hmark ih =>
      obtain ⟨content, rest, ranges, behind, hrest, rfl, rfl⟩ := ih h
      exact Reads.oneOf hrest
  | case11 before c cs _ hstar hmark _ hbracket ih =>
      obtain ⟨rest, hrest, rfl⟩ := Option.map_eq_some_iff.1 h
      refine Reads.char ?_ (ih hrest)
      simpa using ⟨hstar, hmark, hbracket⟩
  -- Brackets that are not closed are refused.
  | case12 => cases h
  | case13 negated chars c cs hclose ih =>
      obtain ⟨rest, hrest, rfl⟩ := Option.map_eq_some_iff.1 h
      exact ⟨[], cs, _, rest, ih hrest, by rw [hclose.1, List.nil_append], rfl⟩
  | case14 negated chars c cs hopen ih =>
      obtain ⟨content, rest, ranges, behind, hrest, rfl, rfl⟩ := ih h
      exact ⟨c :: content, rest, ranges, behind, hrest, rfl, rfl⟩

/-- Two stars stand only where a name could start: at the beginning or behind a slash. Elsewhere the
reader has no case for them. -/
theorem Reads.all_slash_of_stars {before : Option Char} {text : List Char} {glob : Glob}
    (h : Reads before text glob) (hstars : ['*', '*'] <+: text) : before.all (· = '/') = true := by
  cases h with
  | done => simp at hstars
  | beneath hbefore => exact hbefore
  | beneathSlash hbefore => exact hbefore
  | directories hbefore => exact hbefore
  -- A single star is not followed by a star.
  | run hhead hrest =>
      obtain ⟨rest, hrest⟩ := (List.cons_prefix_cons.1 hstars).2
      rw [← hrest] at hhead
      exact absurd rfl hhead
  | single hrest => simp at hstars
  | oneOf hrest => simp at hstars
  | char hc hrest =>
      obtain rfl := (List.cons_prefix_cons.1 hstars).1
      simp at hc

/-! ### What is left of a text -/

/-- The text `**/` as often as given. -/
def runsOver (times : Nat) : List Char := (List.replicate times ['*', '*', '/']).flatten

/-- A slash with any number of `**/` behind it ends in a slash. -/
theorem suffix_slash_runsOver (times : Nat) : ['/'] <:+ '/' :: runsOver times := by
  induction times with
  | zero => exact List.suffix_rfl
  | succ times ih => exact ih.trans (List.suffix_append ['/', '*', '*'] _)

/-- What is left of a pattern when `**/` and then `/**` are removed from its text. -/
def bareText (text : List Char) : List Char :=
  removeAll ['/', '*', '*'] (removeAll ['*', '*', '/'] text)

/-- A `**/` at the start is removed. -/
theorem removeAll_runs_cons (text : List Char) :
    removeAll ['*', '*', '/'] ('*' :: '*' :: '/' :: text) = removeAll ['*', '*', '/'] text :=
  removeAll_append_self (by simp) text

/-- Any number of them at the start are removed. -/
theorem removeAll_runsOver_append (times : Nat) (text : List Char) :
    removeAll ['*', '*', '/'] (runsOver times ++ text) = removeAll ['*', '*', '/'] text := by
  induction times with
  | zero => rfl
  | succ times ih =>
      show removeAll _ ('*' :: '*' :: '/' :: (runsOver times ++ text)) = _
      rw [removeAll_runs_cons, ih]

/-- A character other than a star stays when `**/` is removed, since the removed texts start with a
star. -/
theorem removeAll_cons_of_ne_star {c : Char} (hc : c ≠ '*') (text : List Char) :
    removeAll ['*', '*', '/'] (c :: text) = c :: removeAll ['*', '*', '/'] text := by
  refine removeAll_cons ?_
  intro hruns
  exact hc (List.cons_prefix_cons.1 hruns).1.symm

/-- A lone star is not removed. -/
theorem removeAll_star_cons {text : List Char} (hhead : text.head? ≠ some '*') :
    removeAll ['*', '*', '/'] ('*' :: text) = '*' :: removeAll ['*', '*', '/'] text := by
  refine removeAll_cons ?_
  intro hruns
  obtain ⟨rest, rfl⟩ := (List.cons_prefix_cons.1 hruns).2
  exact hhead rfl

/-- A lone star is still there in the end: `**/` begins with two stars, and `/**` with a slash. -/
theorem star_mem_bareText {text : List Char} (hhead : text.head? ≠ some '*') :
    '*' ∈ bareText ('*' :: text) := by
  rw [bareText, removeAll_star_cons hhead, removeAll_cons (by simp)]
  exact List.mem_cons_self

/-- Only two stars behind it take a slash away. -/
theorem stars_of_slash_not_mem_bareText {text : List Char} (h : '/' ∉ bareText ('/' :: text)) :
    ['*', '*'] <+: removeAll ['*', '*', '/'] text := by
  rw [bareText, removeAll_cons_of_ne_star (by decide)] at h
  by_cases hstars : ['/', '*', '*'] <+: '/' :: removeAll ['*', '*', '/'] text
  · exact (List.cons_prefix_cons.1 hstars).2
  · rw [removeAll_cons hstars] at h
    exact absurd List.mem_cons_self h

/-- A character other than a star and a slash keeps what is before it and behind it apart: nothing
that is removed reaches across it, not even after something was removed in between. -/
theorem bareText_append_cons {c : Char} (hstar : c ≠ '*') (hslash : c ≠ '/')
    (before after : List Char) :
    bareText (before ++ c :: after) = bareText before ++ c :: bareText after := by
  rw [bareText, removeAll_append_cons (by simp) (by simp [hstar, hslash]),
    removeAll_append_cons (by simp) (by simp [hstar, hslash]), bareText, bareText]

/-- Such a character at the start stays there. -/
theorem bareText_cons {c : Char} (hstar : c ≠ '*') (hslash : c ≠ '/') (text : List Char) :
    bareText (c :: text) = c :: bareText text :=
  bareText_append_cons hstar hslash [] text

/-- Stars that are left when those with a slash behind them are gone are the last ones of the
pattern, and only such stars stand before them. -/
theorem Reads.eq_of_stars {before : Option Char} {text : List Char} {glob : Glob}
    (h : Reads before text glob) (hstars : ['*', '*'] <+: removeAll ['*', '*', '/'] text) :
    ∃ times, text = runsOver times ++ ['*', '*'] ∧
      glob = List.replicate times .directories ++ [.run true] := by
  -- A part that starts with another character leaves that character first.
  have hfirst : ∀ {c : Char} {rest : List Char}, c ≠ '*' →
      ¬['*', '*'] <+: removeAll ['*', '*', '/'] (c :: rest) := by
    intro c rest hc hstars
    rw [removeAll_cons_of_ne_star hc] at hstars
    exact hc (List.cons_prefix_cons.1 hstars).1.symm
  induction h with
  | done => exact absurd hstars (by decide)
  | beneath => exact ⟨0, rfl, rfl⟩
  | beneathSlash => exact absurd hstars (by decide)
  | directories hbefore hne hrest ih =>
      rw [removeAll_runs_cons] at hstars
      obtain ⟨times, rfl, rfl⟩ := ih hstars
      exact ⟨times + 1, rfl, rfl⟩
  | @run before rest glob hhead hrest ih =>
      -- The second star would have to be the first character behind a lone star.
      rw [removeAll_star_cons hhead] at hstars
      have hsecond : ['*'] <+: removeAll ['*', '*', '/'] rest := (List.cons_prefix_cons.1 hstars).2
      cases rest with
      | nil => exact absurd hsecond (by decide)
      | cons c rest =>
          have hc : c ≠ '*' := fun hc => hhead (by rw [hc, List.head?_cons])
          rw [removeAll_cons_of_ne_star hc] at hsecond
          exact absurd (List.cons_prefix_cons.1 hsecond).1.symm hc
  | single hrest ih => exact absurd hstars (hfirst (by decide))
  | oneOf hrest ih => exact absurd hstars (hfirst (by decide))
  | char hc hrest ih => exact absurd hstars (hfirst (fun heq => hc (by simp [heq])))

/-! ### Patterns with a name -/

/-- The pattern spells a name: a question mark stands for any character, and brackets stand for one
of the characters in them, some of which are left in the name. -/
inductive Spells : (text : List Char) → (glob : Glob) → (name : List Char) → Prop where
  | nil : Spells [] [] []
  | single {text : List Char} {glob : Glob} {name : List Char} (hrest : Spells text glob name) :
      Spells ('?' :: text) (.single true :: glob) ('?' :: name)
  | oneOf {content kept text : List Char} {negated : Bool} {ranges : List CharRange} {glob : Glob}
      {name : List Char} (hrest : Spells text glob name) :
      Spells ('[' :: (content ++ ']' :: text)) (.oneOf negated ranges :: glob)
        ('[' :: (kept ++ ']' :: name))
  | char {c : Char} {text : List Char} {glob : Glob} {name : List Char}
      (hc : c ∉ ['*', '?', '[', '/']) (hrest : Spells text glob name) :
      Spells (c :: text) (.char c :: glob) (c :: name)

/-- What may stand behind a name: nothing, or stars for all that is below it. -/
def tailText : (beneath : Option Nat) → List Char
  | none => []
  | some times => '/' :: (runsOver times ++ ['*', '*'])

/-- The tokens of what may stand behind a name. -/
def tailGlob : (beneath : Option Nat) → Glob
  | none => []
  | some times => .char '/' :: (List.replicate times .directories ++ [.run true])

/-- The pattern is a name with stars above it and below it or not. -/
def Names (name : List Char) (above : Nat) (beneath : Option Nat) (text : List Char)
    (glob : Glob) : Prop :=
  ∃ core coreGlob, Spells core coreGlob name ∧
    text = runsOver above ++ (core ++ tailText beneath) ∧
    glob = List.replicate above .directories ++ (coreGlob ++ tailGlob beneath)

/-- A pattern that does not start with two stars, and of which no star or slash is left, starts with
the name that is left. Behind the name there is nothing, or a slash that stars take away. -/
theorem Reads.names_zero {before : Option Char} {text : List Char} {glob : Glob}
    (h : Reads before text glob) (hstars : ¬['*', '*'] <+: text) (hstar : '*' ∉ bareText text)
    (hslash : '/' ∉ bareText text) : ∃ beneath, Names (bareText text) 0 beneath text glob := by
  -- Behind a character other than a slash no two stars can start, so the induction goes on there.
  have hnext : ∀ {c : Char} {rest : List Char} {behind : Glob}, Reads (some c) rest behind →
      c ≠ '/' → ¬['*', '*'] <+: rest := by
    intro c rest behind hrest hc hstars
    exact hc (by simpa using hrest.all_slash_of_stars hstars)
  induction h with
  | done => exact ⟨none, [], [], .nil, rfl, rfl⟩
  | beneath => exact absurd List.prefix_rfl hstars
  | beneathSlash => exact absurd (by decide) hstars
  | directories => exact absurd (by simp) hstars
  | run hhead => exact absurd (star_mem_bareText hhead) hstar
  | @single before text glob hrest ih =>
      rw [bareText_cons (by decide) (by decide)] at hstar hslash ⊢
      obtain ⟨beneath, core, coreGlob, hcore, rfl, rfl⟩ := ih (hnext hrest (by decide))
        (List.not_mem_of_not_mem_cons hstar) (List.not_mem_of_not_mem_cons hslash)
      exact ⟨beneath, '?' :: core, _, .single hcore, rfl, rfl⟩
  | @oneOf before content text negated ranges glob hrest ih =>
      rw [bareText_cons (by decide) (by decide), bareText_append_cons (by decide) (by decide)]
        at hstar hslash ⊢
      have hmem : ∀ {c : Char}, c ∉ '[' :: (bareText content ++ ']' :: bareText text) →
          c ∉ bareText text := by
        intro c hc hmem
        exact hc (by simp [hmem])
      obtain ⟨beneath, core, coreGlob, hcore, rfl, rfl⟩ := ih (hnext hrest (by decide))
        (hmem hstar) (hmem hslash)
      exact ⟨beneath, '[' :: (content ++ ']' :: core), _, .oneOf hcore, by simp [runsOver], rfl⟩
  | @char before c text glob hc hrest ih =>
      by_cases hce : c = '/'
      · subst hce
        -- The slash is gone, so the name ends here, and only stars stand behind the slash.
        obtain ⟨times, rfl, rfl⟩ := hrest.eq_of_stars (stars_of_slash_not_mem_bareText hslash)
        have hbare : bareText ('/' :: (runsOver times ++ ['*', '*'])) = [] := by
          rw [bareText, removeAll_cons_of_ne_star (by decide), removeAll_runsOver_append]
          decide
        rw [hbare]
        exact ⟨some times, [], [], .nil, rfl, rfl⟩
      · have hcstar : c ≠ '*' := fun heq => hc (by simp [heq])
        rw [bareText_cons hcstar hce] at hstar hslash ⊢
        obtain ⟨beneath, core, coreGlob, hcore, rfl, rfl⟩ := ih (hnext hrest hce)
          (List.not_mem_of_not_mem_cons hstar) (List.not_mem_of_not_mem_cons hslash)
        exact ⟨beneath, c :: core, _, .char (by simpa [hce] using hc) hcore, rfl, rfl⟩

/-- A pattern of which no star or slash is left is a pattern with a name, the one that is left. The
induction takes away one `**/` at the front after the other. -/
theorem Reads.exists_names {before : Option Char} {text : List Char} {glob : Glob}
    (h : Reads before text glob) (hne : bareText text ≠ []) (hstar : '*' ∉ bareText text)
    (hslash : '/' ∉ bareText text) :
    ∃ above beneath, Names (bareText text) above beneath text glob := by
  induction h with
  | done => exact absurd rfl hne
  -- The three cases that end the text leave a star or nothing of it.
  | beneath => exact absurd (by decide) hstar
  | beneathSlash => exact absurd (by decide) hne
  | @directories before text glob hbefore htext hrest ih =>
      have hbare : bareText ('*' :: '*' :: '/' :: text) = bareText text := by
        rw [bareText, removeAll_runs_cons, bareText]
      rw [hbare] at hne hstar hslash ⊢
      obtain ⟨above, beneath, core, coreGlob, hcore, htext, rfl⟩ := ih hne hstar hslash
      refine ⟨above + 1, beneath, core, coreGlob, hcore, ?_, rfl⟩
      rw [htext]
      exact rfl
  | run hhead hrest => exact absurd (star_mem_bareText hhead) hstar
  -- From here on the name has begun, and nothing is above it.
  | @single before text glob hrest =>
      have hwhole : Reads before ('?' :: text) (.single true :: glob) := .single hrest
      exact ⟨0, hwhole.names_zero (by simp) hstar hslash⟩
  | @oneOf before content text negated ranges glob hrest =>
      have hwhole :
          Reads before ('[' :: (content ++ ']' :: text)) (.oneOf negated ranges :: glob) :=
        .oneOf hrest
      exact ⟨0, hwhole.names_zero (by simp) hstar hslash⟩
  | @char before c text glob hc hrest =>
      have hwhole : Reads before (c :: text) (.char c :: glob) := .char hc hrest
      refine ⟨0, hwhole.names_zero ?_ hstar hslash⟩
      intro hstars
      exact hc (by simp [← (List.cons_prefix_cons.1 hstars).1])

namespace Spells

variable {text name : List Char} {glob : Glob}

/-- What is matched has no more characters than the name, and fewer if there are brackets, because
brackets match one character and take up two at least. -/
theorem length_add_count_le (h : Spells text glob name) {matched : List Char}
    (hmatched : glob.Matches matched) : matched.length + name.count '[' ≤ name.length := by
  induction h generalizing matched with
  | nil =>
      obtain rfl : matched = [] := hmatched
      exact Nat.le_refl 0
  | single hrest ih =>
      obtain ⟨_, ⟨c, -, rfl⟩, back, hback, rfl⟩ := hmatched
      have hle := ih hback
      rw [List.count_cons_of_ne (by decide)]
      simp only [List.singleton_append, List.length_cons]
      omega
  -- The opening bracket is counted, and the closing one makes up for the character matched.
  | @oneOf content kept text negated ranges glob name hrest ih =>
      obtain ⟨_, ⟨c, -, rfl⟩, back, hback, rfl⟩ := hmatched
      have hle := ih hback
      have hkept : kept.count '[' ≤ kept.length := List.count_le_length
      rw [List.count_cons_self, List.count_append, List.count_cons_of_ne (by decide)]
      simp only [List.singleton_append, List.length_cons, List.length_append]
      omega
  | char hc hrest ih =>
      obtain ⟨_, rfl, back, hback, rfl⟩ := hmatched
      have hle := ih hback
      rw [List.count_cons_of_ne fun heq => hc (by simp [heq])]
      simp only [List.singleton_append, List.length_cons]
      omega

/-- Without brackets the pattern is written like the name. -/
theorem eq_name (h : Spells text glob name) (hbracket : '[' ∉ name) : text = name := by
  induction h with
  | nil => rfl
  | single hrest ih => rw [ih (List.not_mem_of_not_mem_cons hbracket)]
  | oneOf => simp at hbracket
  | char hc hrest ih => rw [ih (List.not_mem_of_not_mem_cons hbracket)]

/-- Without brackets the pattern matches its own name. A question mark matches a question mark, and
every other character itself. -/
theorem matches_name (h : Spells text glob name) (hbracket : '[' ∉ name) : glob.Matches name := by
  induction h with
  | nil => rfl
  | single hrest ih =>
      exact ⟨['?'], ⟨'?', .inl rfl, rfl⟩, _, ih (List.not_mem_of_not_mem_cons hbracket), rfl⟩
  | oneOf => simp at hbracket
  | char hc hrest ih =>
      exact ⟨_, rfl, _, ih (List.not_mem_of_not_mem_cons hbracket), rfl⟩

/-- A name without wildcards is all that its pattern matches. With a question mark there would be
other texts, and with brackets it need not match itself. -/
theorem eq_of_matches (h : Spells text glob name) (hbracket : '[' ∉ name) (hmark : '?' ∉ name)
    {matched : List Char} (hmatched : glob.Matches matched) : matched = name := by
  induction h generalizing matched with
  | nil => exact hmatched
  | single => simp at hmark
  | oneOf => simp at hbracket
  | char hc hrest ih =>
      obtain ⟨_, rfl, back, hback, rfl⟩ := hmatched
      rw [ih (List.not_mem_of_not_mem_cons hbracket) (List.not_mem_of_not_mem_cons hmark) hback,
        List.singleton_append]

end Spells

/-! ### What a pattern with a name matches -/

/-- What may stand behind a name: nothing, or anything behind a slash. The number of `**/` in
between does not matter. -/
theorem matches_tailGlob {beneath : Option Nat} {text : List Char} :
    (tailGlob beneath).Matches text ↔
      beneath = none ∧ text = [] ∨ beneath ≠ none ∧ ∃ inner, text = '/' :: inner := by
  cases beneath with
  | none => simp [tailGlob, Matches]
  | some times =>
      have hruns : ∀ inner, Matches (List.replicate times .directories ++ [.run true]) inner := by
        intro inner
        refine matches_append.2 ⟨[], matches_replicate_directories.2 (.inl rfl), inner, ?_, rfl⟩
        exact ⟨inner, .inl rfl, [], rfl, by simp⟩
      simp [tailGlob, Matches, GlobToken.Matches, hruns]

/-- The name is matched between directories above it and what is below it. Directories are there
only if the pattern has stars above, and something is below exactly if it has stars there. -/
theorem matches_names_iff {above : Nat} {beneath : Option Nat} {coreGlob : Glob}
    {text : List Char} :
    Matches (List.replicate above .directories ++ (coreGlob ++ tailGlob beneath)) text ↔
      ∃ lead middle back, text = lead ++ (middle ++ back) ∧ coreGlob.Matches middle ∧
        (lead = [] ∨ 0 < above ∧ ∃ names, lead = names ++ ['/']) ∧
        (beneath = none ∧ back = [] ∨ beneath ≠ none ∧ ∃ inner, back = '/' :: inner) := by
  simp only [matches_append, matches_replicate_directories, matches_tailGlob]
  constructor
  · rintro ⟨lead, hlead, _, ⟨middle, hmiddle, back, hback, rfl⟩, rfl⟩
    exact ⟨lead, middle, back, rfl, hmiddle, hlead, hback⟩
  · rintro ⟨lead, middle, back, rfl, hmiddle, hlead, hback⟩
    exact ⟨lead, hlead, _, ⟨middle, hmiddle, back, hback, rfl⟩, rfl⟩

/-- A text that a slash or the end follows is at least as long as a name that starts with it. A
longer name would have that slash in it. -/
theorem length_le_of_append_eq {name rest middle back : List Char} (hslash : '/' ∉ name)
    (heq : name ++ rest = middle ++ back) (hback : back = [] ∨ ∃ inner, back = '/' :: inner) :
    name.length ≤ middle.length := by
  rcases List.append_eq_append_iff.1 heq with ⟨more, rfl, -⟩ | ⟨extra, rfl, hextra⟩
  · simp
  · -- What the name has more starts with the slash behind `middle`.
    cases extra with
    | nil => simp
    | cons c extra =>
        rcases hback with rfl | ⟨inner, rfl⟩
        · cases hextra
        · obtain rfl := (List.cons.inj hextra).1
          simp at hslash

/-- Two cuts of a text at a slash, the first of them at its first slash, are the same cut, or the
second one is behind the first. -/
theorem append_slash_eq_cases {first behind names rest : List Char} (hfirst : '/' ∉ first)
    (heq : first ++ '/' :: behind = names ++ '/' :: rest) :
    first = names ∧ behind = rest ∨
      ∃ more, names = first ++ '/' :: more ∧ behind = more ++ '/' :: rest := by
  rcases List.append_eq_append_iff.1 heq with ⟨more, rfl, hmore⟩ | ⟨extra, rfl, hextra⟩
  · cases more with
    | nil => exact .inl ⟨by simp, (List.cons.inj hmore).2⟩
    | cons c more =>
        obtain ⟨rfl, hbehind⟩ := List.cons.inj hmore
        exact .inr ⟨more, rfl, hbehind⟩
  · -- The first cut would be behind the second, but there is no slash before it.
    cases extra with
    | nil => exact .inl ⟨by simp, (List.cons.inj hextra).2.symm⟩
    | cons c extra =>
        obtain rfl := (List.cons.inj hextra).1
        simp at hfirst

namespace Names

variable {name text : List Char} {above : Nat} {beneath : Option Nat} {glob : Glob}

/-- With longer names around it, a name is matched only by a pattern without brackets that goes over
the directories above it and over what is below it. The match can begin at three places, and two of
them have names that are too long for the pattern. -/
theorem of_matches_between (h : Names name above beneath text glob) (hname : '/' ∉ name)
    {outer inner : List Char} (houter : '/' ∉ outer) (hinner : '/' ∉ inner)
    (hlongOuter : name.length < outer.length) (hlongInner : name.length < inner.length)
    (hmatches : glob.Matches (outer ++ '/' :: (name ++ '/' :: inner))) :
    0 < above ∧ beneath ≠ none ∧ '[' ∉ name := by
  obtain ⟨core, coreGlob, hcore, -, rfl⟩ := h
  obtain ⟨lead, middle, back, heq, hmiddle, hlead, hback⟩ := matches_names_iff.1 hmatches
  have hwidth := hcore.length_add_count_le hmiddle
  have hend : back = [] ∨ ∃ inner, back = '/' :: inner := hback.imp And.right And.right
  rcases hlead with rfl | ⟨habove, names, rfl⟩
  · -- At the start there is `outer`, which is too long.
    rw [List.nil_append] at heq
    have hle := length_le_of_append_eq houter heq hend
    omega
  · rw [List.append_assoc, List.singleton_append] at heq
    rcases append_slash_eq_cases houter heq with ⟨-, heq⟩ | ⟨more, -, heq⟩
    · -- Behind the first slash all of the name is matched, so there are no brackets in it.
      have hle := length_le_of_append_eq hname heq hend
      refine ⟨habove, ?_, List.count_eq_zero.1 (by omega)⟩
      rcases hback with ⟨-, rfl⟩ | ⟨hbeneath, -⟩
      · have hlength := congrArg List.length heq
        simp only [List.append_nil, List.length_append, List.length_cons] at hlength
        omega
      · exact hbeneath
    · rcases append_slash_eq_cases hname heq with ⟨-, rfl⟩ | ⟨deeper, -, rfl⟩
      · -- Behind the second one there is `inner`, which is too long again.
        have hle := length_le_of_append_eq hinner (List.append_nil _) hend
        omega
      · simp at hinner

/-- A pattern that goes below its name does not match a text without slashes, such as the name
itself. -/
theorem not_matches_of_beneath (h : Names name above beneath text glob)
    (hbeneath : beneath ≠ none) {path : List Char} (hpath : '/' ∉ path) : ¬glob.Matches path := by
  intro hmatches
  obtain ⟨core, coreGlob, hcore, -, rfl⟩ := h
  obtain ⟨lead, middle, back, rfl, -, -, hback⟩ := matches_names_iff.1 hmatches
  rcases hback with ⟨hnone, -⟩ | ⟨-, inner, rfl⟩
  · exact hbeneath hnone
  · simp at hpath

/-- All that is below a directory of the name is matched, wherever the directory is. -/
theorem matches_below (h : Names name above beneath text glob) (habove : 0 < above)
    (hbeneath : beneath ≠ none) (hbracket : '[' ∉ name) {lead inner : List Char}
    (hlead : lead = [] ∨ ∃ names, lead = names ++ ['/']) :
    glob.Matches (lead ++ (name ++ '/' :: inner)) := by
  obtain ⟨core, coreGlob, hcore, -, rfl⟩ := h
  exact matches_names_iff.2 ⟨lead, name, _, rfl, hcore.matches_name hbracket,
    hlead.imp id (fun hnames => ⟨habove, hnames⟩), .inr ⟨hbeneath, inner, rfl⟩⟩

/-- A name without wildcards stands in all that its pattern matches, between slashes or the ends. So
it is one of the pieces of such a path. -/
theorem exists_eq_of_matches (h : Names name above beneath text glob) (hbracket : '[' ∉ name)
    (hmark : '?' ∉ name) {path : List Char} (hmatches : glob.Matches path) :
    ∃ lead back, path = lead ++ (name ++ back) ∧ (lead = [] ∨ ∃ names, lead = names ++ ['/']) ∧
      (back = [] ∨ ∃ inner, back = '/' :: inner) := by
  obtain ⟨core, coreGlob, hcore, -, rfl⟩ := h
  obtain ⟨lead, middle, back, hpath, hmiddle, hlead, hback⟩ := matches_names_iff.1 hmatches
  rw [hcore.eq_of_matches hbracket hmark hmiddle] at hpath
  exact ⟨lead, back, hpath, hlead.imp id And.right, hback.imp And.right And.right⟩

/-- Stars above the name are seen at the start of the text. A name of stars would look the same
there, so it must have none. -/
theorem starts_iff (h : Names name above beneath text glob) (hne : name ≠ []) (hstar : '*' ∉ name)
    (hbracket : '[' ∉ name) : ['*', '*', '/'] <+: text ↔ 0 < above := by
  obtain ⟨core, coreGlob, hcore, rfl, -⟩ := h
  rw [hcore.eq_name hbracket]
  cases above with
  | zero =>
      refine iff_of_false ?_ (Nat.lt_irrefl 0)
      obtain ⟨c, rest, rfl⟩ := List.exists_cons_of_ne_nil hne
      intro hruns
      obtain rfl : '*' = c := (List.cons_prefix_cons.1 hruns).1
      exact hstar List.mem_cons_self
  | succ above => exact iff_of_true (List.prefix_append ['*', '*', '/'] _) (Nat.succ_pos above)

/-- Stars below the name are seen at the end of the text. Without them the text ends with a
character of the name, which is no star. -/
theorem ends_iff (h : Names name above beneath text glob) (hne : name ≠ []) (hstar : '*' ∉ name)
    (hbracket : '[' ∉ name) : ['/', '*', '*'] <:+ text ↔ beneath ≠ none := by
  obtain ⟨core, coreGlob, hcore, rfl, -⟩ := h
  rw [hcore.eq_name hbracket]
  cases beneath with
  | none =>
      refine iff_of_false ?_ (fun hnone => hnone rfl)
      rintro ⟨front, hfront⟩
      -- The last character is one of the name.
      obtain ⟨start, last, rfl⟩ := (List.eq_nil_or_concat name).resolve_left hne
      have hcut : (front ++ ['/', '*']) ++ ['*'] = (runsOver above ++ start) ++ [last] := by
        simpa [tailText] using hfront
      obtain rfl : '*' = last := by simpa using (List.append_inj' hcut rfl).2
      simp at hstar
  | some times =>
      refine iff_of_true ?_ (Option.some_ne_none times)
      obtain ⟨front, hfront⟩ := suffix_slash_runsOver times
      refine List.IsSuffix.trans ⟨front, ?_⟩ (List.suffix_append_of_suffix (List.suffix_append _ _))
      rw [tailText, ← List.cons_append, ← hfront, List.append_assoc]
      exact rfl

end Names

end Arborist.Glob
