import Arborist.Proofs.Text.LineIndex
import Arborist.Source.Tokens

/-!
# `Arborist.Proofs.Source.Tokens`: tokens and the text they come from

`Reads text n ts` says that the tokens `ts` stand in the text one behind the other, from its
character `n` on, and that each has the span of its characters. `reads_tokens` is the main result:
the tokens of a text are read from it, apart from a leading byte order mark.

There is one exception. A documentation comment stands for an attribute, and the tokens of the
attribute are not in the text. All that is kept of them is that they are a hash sign, perhaps an
exclamation mark, and a bracketed sequence with anything inside.

The tokens are collected from the left with the last one first, so what has been read is followed as
the beginning of a longer sequence (`ReadsTo`). Each open bracket holds such a beginning (`Opened`).
Both together are what every step of the reader keeps (`Reading`).
-/

set_option autoImplicit false

namespace Arborist.Source

/-- The place behind the first `n` characters of a text. -/
def place (text : List Char) (n : Nat) : Position := Position.first.afterAll (text.take n)

/-- The characters `cs` stand in the text from its character `n` on, and `span` says so. -/
structure StandsAt (text : List Char) (n : Nat) (cs : List Char) (span : Span) : Prop where
  characters : cs <+: text.drop n
  span_eq : span = ⟨place text n, place text (n + cs.length)⟩

/-- Not a bracketed sequence. -/
def Token.isSingle : Token → Bool
  | .group _ _ _ => false
  | _ => true

/-- The tokens stand in the text in this order, from character `n` on. -/
inductive Reads (text : List Char) : Nat → List Token → Prop where
  | nil {n : Nat} : Reads text n []
  | single {n m : Nat} {t : Token} {ts : List Token} (h : t.isSingle = true) (le : n ≤ m)
      (stands : StandsAt text m t.characters t.span)
      (rest : Reads text (m + t.characters.length) ts) : Reads text n (t :: ts)
  | group {n m : Nat} {delimiter : Delimiter} {inside ts : List Token} {span : Span}
      (inner : Reads text n inside) (le : n ≤ m) (rest : Reads text m ts) :
      Reads text n (.group delimiter inside span :: ts)
  /-- A comment that documents what comes behind it. -/
  | outerDoc {n m : Nat} {joint : Bool} {inside ts : List Token} {span span' : Span} (le : n ≤ m)
      (rest : Reads text m ts) :
      Reads text n (.mark '#' joint span :: .group .bracket inside span' :: ts)
  /-- A comment that documents what is around it. -/
  | innerDoc {n m : Nat} {joint joint' : Bool} {inside ts : List Token} {span span' span'' : Span}
      (le : n ≤ m) (rest : Reads text m ts) :
      Reads text n (.mark '#' joint span :: .mark '!' joint' span' ::
        .group .bracket inside span'' :: ts)

variable {text : List Char}

/-- What is read from a character on is read from an earlier one on, since characters may be passed
over between two tokens. -/
theorem Reads.weaken {m n : Nat} {ts : List Token} (h : Reads text n ts) (hle : m ≤ n) :
    Reads text m ts := by
  induction h generalizing m with
  | nil => exact .nil
  | single hsingle le stands rest => exact .single hsingle (Nat.le_trans hle le) stands rest
  | group inner le rest ihi => exact .group (ihi hle) (Nat.le_trans hle le) rest
  | outerDoc le rest => exact .outerDoc (Nat.le_trans hle le) rest
  | innerDoc le rest => exact .innerDoc (Nat.le_trans hle le) rest

/-! ### Beginnings of sequences -/

/-- Tokens from character `n` on that end before character `m`: whatever is read from there on may
follow them. -/
structure ReadsTo (text : List Char) (n : Nat) (ts : List Token) (m : Nat) : Prop where
  le : n ≤ m
  append : ∀ us, Reads text m us → Reads text n (ts ++ us)

namespace ReadsTo

variable {n m k : Nat} {ts : List Token}

/-- No tokens, which end where they start. -/
theorem nil (text : List Char) (n : Nat) : ReadsTo text n [] n := ⟨Nat.le_refl n, fun _ h => h⟩

/-- All of the tokens, with nothing behind them. -/
theorem reads (h : ReadsTo text n ts m) : Reads text n ts := by
  simpa using h.append [] .nil

/-- What ends before a character ends before every later one. -/
theorem weaken (h : ReadsTo text n ts m) (hle : m ≤ k) : ReadsTo text n ts k :=
  ⟨Nat.le_trans h.le hle, fun us hus => h.append us (hus.weaken hle)⟩

/-- More tokens behind those read so far. -/
theorem snoc (h : ReadsTo text n ts m) {us : List Token} (hle : m ≤ k)
    (hus : ∀ vs, Reads text k vs → Reads text m (us ++ vs)) : ReadsTo text n (ts ++ us) k := by
  refine ⟨Nat.le_trans h.le hle, fun vs hvs => ?_⟩
  rw [List.append_assoc]
  exact h.append _ (hus vs hvs)

end ReadsTo

/-- The tokens in front of each open bracket, and the character `n` from which on those inside the
innermost one are read. -/
inductive Opened (text : List Char) : List OpenGroup → Nat → Prop where
  | nil : Opened text [] 0
  | cons {g : OpenGroup} {groups : List OpenGroup} {n m : Nat} (outer : Opened text groups n)
      (before : ReadsTo text n g.before.reverse m) : Opened text (g :: groups) m

/-! ### One lexeme -/

/-- The lexeme is spelled by the first `n` of the characters. -/
def Lexeme.SpelledBy (cs : List Char) (n : Nat) : Lexeme → Prop
  | .word text | .lifetime text | .literal text => text.toList = cs.take n
  | .mark char _ => cs.take n = [char]
  | _ => True

/-- What starts with an apostrophe, the literal of a character or a lifetime, is spelled by the
characters it takes up. -/
theorem apostrophe?_spelledBy {rest : List Char} {lexeme : Lexeme} {n : Nat}
    (h : apostrophe? rest = some (lexeme, n)) : lexeme.SpelledBy ('\'' :: rest) n := by
  obtain ⟨k, -, h⟩ := Option.bind_eq_some_iff.1 h
  dsimp only at h
  split at h
  · cases h
  · split at h
    · cases h
    · split at h
      · cases h
        simp [Lexeme.SpelledBy]
      · cases h
        simp [Lexeme.SpelledBy]

/-- The lexeme ahead is spelled by the characters it takes up. The cases are the branches of
`lexeme?` in their order; blanks, comments and brackets have no spelling of their own. -/
theorem lexeme?_spelledBy {cs : List Char} {lexeme : Lexeme} {n : Nat}
    (h : lexeme? cs = some (lexeme, n)) : lexeme.SpelledBy cs n := by
  unfold lexeme? at h
  split at h
  · cases h
    trivial
  · split at h
    · cases h
      trivial
    · split at h
      · -- The text that counts as a literal although it looks like a group.
        next hunknown =>
          cases h
          rw [Lexeme.SpelledBy, hunknown, String.toList_ofList]
      · split at h
        · cases h
        · split at h
          · cases h
            trivial
          · cases h
            trivial
          · split at h
            · cases h
              rw [Lexeme.SpelledBy, String.toList_ofList]
            · split at h
              · next c rest _ _ _ _ _ hc =>
                  rw [beq_iff_eq.1 hc]
                  exact apostrophe?_spelledBy h
              · split at h
                · cases h
                  rfl
                · obtain ⟨k, -, heq⟩ := Option.map_eq_some_iff.1 h
                  cases heq
                  rw [Lexeme.SpelledBy, String.toList_ofList]

/-! ### All lexemes -/

/-- The tokens of a documentation comment may stand anywhere. -/
theorem reads_docTokens {n m : Nat} (doc : DocComment) (span : Span) (hle : n ≤ m) {ts : List Token}
    (h : Reads text m ts) : Reads text n ((docTokens doc span).reverse ++ ts) := by
  rw [docTokens]
  split
  · exact .innerDoc hle h
  · exact .outerDoc hle h

/-- A text is cut behind the characters before the cut. -/
theorem place_append (front rest : List Char) :
    place (front ++ rest) front.length = Position.first.afterAll front := by
  rw [place, List.take_left]

/-- A token stands at the cut if it is spelled by the first characters behind it, and its span goes
from the cut to the end of these. -/
theorem standsAt_cut {front cs : List Char} {n : Nat} {t : Token}
    (hspelled : t.characters = cs.take n)
    (hspan : t.span = ⟨Position.first.afterAll front,
      (Position.first.afterAll front).afterAll (cs.take n)⟩) :
    StandsAt (front ++ cs) front.length t.characters t.span := by
  refine ⟨?_, ?_⟩
  · rw [hspelled, List.drop_left]
    exact List.take_prefix n cs
  · rw [hspan, place_append, place, hspelled, ← Position.afterAll_append]
    congr 2
    rw [List.length_take, List.take_length_add_append, ← List.take_eq_take_min]

/-- The tokens read so far end before character `k` of the text: those in front of each open
bracket, and then `read`, last one first. -/
def Reading (text : List Char) (k : Nat) (groups : List OpenGroup) (read : List Token) : Prop :=
  ∃ n, Opened text groups n ∧ ReadsTo text n read.reverse k

namespace Reading

variable {k l : Nat} {groups : List OpenGroup} {read : List Token}

/-- At the start nothing is read and no bracket is open. The first characters may have been passed
over. -/
theorem start (text : List Char) (k : Nat) : Reading text k [] [] :=
  ⟨0, .nil, (ReadsTo.nil text 0).weaken (Nat.zero_le k)⟩

/-- Characters may be passed over. -/
theorem mono (h : Reading text k groups read) (hle : k ≤ l) : Reading text l groups read := by
  obtain ⟨n, hgroups, hread⟩ := h
  exact ⟨n, hgroups, hread.weaken hle⟩

/-- A token that is spelled by the first `n` characters behind the cut. The next place is counted
from the first of them and the others are skipped, which is why `n - 1` is added to it. -/
theorem token {front cs : List Char} {n : Nat}
    (h : Reading (front ++ cs) front.length groups read) (t : Token) (hsingle : t.isSingle = true)
    (hspelled : t.characters = cs.take n)
    (hspan : t.span = ⟨Position.first.afterAll front,
      (Position.first.afterAll front).afterAll (cs.take n)⟩) :
    Reading (front ++ cs) (front.length + 1 + (n - 1)) groups (t :: read) := by
  obtain ⟨first, hgroups, hread⟩ := h
  -- The token ends where the next place is counted from, or before.
  have hfits : front.length + t.characters.length ≤ front.length + 1 + (n - 1) := by
    rw [hspelled, List.length_take]
    omega
  have hstands := standsAt_cut hspelled hspan
  refine mono ⟨first, hgroups, ?_⟩ hfits
  rw [List.reverse_cons]
  exact hread.snoc (Nat.le_add_right _ _) fun vs hvs =>
    .single hsingle (Nat.le_refl _) hstands hvs

/-- A documentation comment adds its tokens without a character of the text for them. -/
theorem doc (h : Reading text k groups read) (doc : DocComment) (span : Span) :
    Reading text k groups (docTokens doc span ++ read) := by
  obtain ⟨n, hgroups, hread⟩ := h
  refine ⟨n, hgroups, ?_⟩
  rw [List.reverse_append]
  exact hread.snoc (Nat.le_refl _) fun vs hvs => reads_docTokens doc span (Nat.le_refl _) hvs

/-- An opening bracket puts aside what was read before it, and reading starts anew inside. -/
theorem opening (h : Reading text k groups read) (delimiter : Delimiter) (position : Position) :
    Reading text k (⟨delimiter, position, read⟩ :: groups) [] := by
  obtain ⟨n, hgroups, hread⟩ := h
  exact ⟨k, .cons hgroups hread, .nil text k⟩

/-- A closing bracket makes one token of those since the opening one. It goes behind the tokens that
were put aside there. -/
theorem closing {g : OpenGroup} (h : Reading text k (g :: groups) read) (delimiter : Delimiter)
    (span : Span) :
    Reading text k groups (.group delimiter read.reverse span :: g.before) := by
  obtain ⟨n, hgroups, hread⟩ := h
  cases hgroups with
  | cons outer before =>
      refine ⟨_, outer, ?_⟩
      rw [List.reverse_cons]
      exact before.snoc hread.le fun vs hvs => .group hread.reads hread.le hvs

/-- When no bracket is open, all the tokens that were read stand in the text. -/
theorem reads (h : Reading text k [] read) : Reads text 0 read.reverse := by
  obtain ⟨n, hgroups, hread⟩ := h
  cases hgroups
  exact hread.reads

end Reading

/-- Reading on at a cut in the text. The induction is on the characters behind the cut; each lexeme
keeps `Reading`, by the lemma for its kind, and the characters of a lexeme behind its first one are
passed over. -/
theorem reads_tokensFrom {front cs : List Char} {skip : Nat} {groups : List OpenGroup}
    {read ts : List Token} (hread : Reading (front ++ cs) (front.length + skip) groups read)
    (h : tokensFrom (Position.first.afterAll front) skip groups read cs = .ok ts) :
    Reads (front ++ cs) 0 ts := by
  induction cs generalizing front skip groups read with
  | nil =>
      cases groups with
      | nil =>
          cases h
          exact hread.reads
      | cons g groups => cases h
  | cons c rest ih =>
      -- What is known of the text as it is cut now holds of it as it is cut behind `c`.
      have hon : ∀ {skip groups read},
          Reading (front ++ c :: rest) (front.length + 1 + skip) groups read →
          tokensFrom ((Position.first.afterAll front).after c) skip groups read rest = .ok ts →
          Reads (front ++ c :: rest) 0 ts := by
        intro skip groups read hread h
        have hnext : (Position.first.afterAll front).after c =
            Position.first.afterAll (front ++ [c]) := by
          rw [Position.afterAll_append]
          rfl
        rw [List.append_cons] at hread ⊢
        rw [hnext] at h
        exact ih (hread.mono (by simp)) h
      cases skip with
      | succ skip => exact hon (hread.mono (by omega)) h
      | zero =>
          rw [tokensFrom] at h
          cases hlexeme : lexeme? (c :: rest) with
          | none =>
              rw [hlexeme] at h
              cases h
          | some found =>
              obtain ⟨lexeme, n⟩ := found
              have hspelled := lexeme?_spelledBy hlexeme
              rw [hlexeme] at h
              cases lexeme with
              | blank => exact hon (hread.mono (by omega)) h
              | doc doc => exact hon ((hread.doc doc _).mono (by omega)) h
              | opening d => exact hon ((hread.opening d _).mono (by omega)) h
              | closing d =>
                  cases groups with
                  | nil => cases h
                  | cons g groups =>
                      dsimp only at h
                      split at h
                      · exact hon ((hread.closing d _).mono (by omega)) h
                      · cases h
              | word text => exact hon (hread.token (.word text _) rfl hspelled rfl) h
              | lifetime text => exact hon (hread.token (.lifetime text _) rfl hspelled rfl) h
              | mark char joint =>
                  exact hon (hread.token (.mark char joint _) rfl hspelled.symm rfl) h
              | literal text => exact hon (hread.token (.literal text _) rfl hspelled rfl) h

/-- A line feed is blank, and the next line starts behind it. So the place that a first line ends at
does not matter for what is read. -/
theorem tokensFrom_newline (position : Position) (rest : List Char) :
    tokensFrom position 0 [] [] ('\n' :: rest) =
      tokensFrom ⟨position.line + 1, 0⟩ 0 [] [] rest := by
  have hlexeme : lexeme? ('\n' :: rest) = some (.blank, 1) := by
    have hblank : blank? ('\n' :: rest) = some 1 := by
      rw [blank?]
      · rfl
      all_goals simp
    rw [lexeme?, hblank]
  rw [tokensFrom, hlexeme]
  rfl

/-- What is left behind a line that names an interpreter starts with the end of that line. A text
without such a line is left as a whole. -/
theorem dropInterpreterLine_cases (text : List Char) :
    dropInterpreterLine text = text ∨
      ∃ line, text = line ++ dropInterpreterLine text ∧ '\n' ∉ line ∧
        (dropInterpreterLine text = [] ∨ ∃ rest, dropInterpreterLine text = '\n' :: rest) := by
  unfold dropInterpreterLine
  split
  · split
    · exact .inl rfl
    · next rest _ =>
        generalize '#' :: '!' :: rest = text
        -- The line is all that comes before the first line feed.
        refine .inr ⟨text.takeWhile (· != '\n'), List.takeWhile_append_dropWhile.symm, ?_, ?_⟩
        · intro hmem
          simpa using List.all_eq_true.1 List.all_takeWhile _ hmem
        · cases hrest : text.dropWhile (· != '\n') with
          | nil => exact .inl rfl
          | cons c rest =>
              have hhead := List.head_dropWhile_not (· != '\n') (l := text) (by simp [hrest])
              simp only [hrest, List.head_cons, bne_eq_false_iff_eq] at hhead
              exact .inr ⟨rest, by rw [hhead]⟩
  · exact .inl rfl

/-- The tokens of a text stand in it. A leading byte order mark is no part of the text that is read;
a first line that names an interpreter is, though there is no token on it. -/
theorem reads_tokens {cs : List Char} {ts : List Token} (h : tokens cs = .ok ts) :
    Reads (dropByteOrderMark cs) 0 ts := by
  rw [tokens] at h
  generalize dropByteOrderMark cs = text at h ⊢
  rcases dropInterpreterLine_cases text with hsame | ⟨line, hsplit, hline, hrest⟩
  · rw [hsame] at h
    cases text with
    | nil =>
        cases h
        exact .nil
    | cons c rest =>
        dsimp only at h
        split at h
        · exact @reads_tokensFrom [c] rest _ _ _ _ (.start _ _) h
        · exact @reads_tokensFrom [] (c :: rest) _ _ _ _ (.start _ _) h
  · rcases hrest with hnil | ⟨rest, hcons⟩
    · rw [hnil] at h
      cases h
      exact .nil
    · rw [hcons] at h hsplit
      have hmark : '\n' ≠ byteOrderMark := by decide
      dsimp only at h
      rw [if_neg hmark, tokensFrom_newline] at h
      -- The columns of the first line do not matter behind its end.
      have hplace : Position.first.afterAll (line ++ ['\n']) = ⟨Position.first.line + 1, 0⟩ := by
        rw [Position.afterAll_append, Position.afterAll_of_not_mem _ hline]
        rfl
      rw [← hplace] at h
      rw [hsplit, List.append_cons]
      exact reads_tokensFrom (.start _ _) h

end Arborist.Source
