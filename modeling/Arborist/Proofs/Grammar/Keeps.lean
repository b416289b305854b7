import Arborist.Proofs.Grammar.Faithful

/-!
# `Arborist.Proofs.Grammar.Keeps`: parsers that stay with the text

`Keeps text p` says that the parser `p`, started on tokens that were read from the text, leaves such
tokens and yields a result that is faithful to the text. There is one rule for each way to put
parsers together, so that a production can be followed line by line.

Nothing is known of the literal among the tokens of a documentation comment. These tokens start with
a hash sign. A parser that goes over a hash sign is therefore looked at on its own, in
`Arborist.Proofs.Grammar.Attribute`; all others skip only tokens that are no hash sign (`Bare`).
That they do is decided by the tokens ahead, so the rules come in a second form, for a given input
(`KeepsFrom`).
-/

set_option autoImplicit false

namespace Arborist.Grammar

open Source (Delimiter Position Span Token Reads)
open Grammar.Parser

variable {text : List Char}

/-! ### Skipping tokens -/

/-- None of the next `n` tokens is a hash sign. -/
def Bare (n : Nat) (ts : List Token) : Prop :=
  ∀ t ∈ ts.take n, ∀ joint span, t ≠ .mark '#' joint span

namespace Bare

variable {ts : List Token}

/-- One more token in front that is no hash sign. -/
theorem cons {n : Nat} {t : Token} (ht : ∀ joint span, t ≠ .mark '#' joint span)
    (hts : Bare n ts) : Bare (n + 1) (t :: ts) := by
  intro u hu
  rcases List.mem_cons.1 hu with rfl | hu
  · exact ht
  · exact hts u hu

/-- Nothing is asked of no tokens. -/
theorem zero (ts : List Token) : Bare 0 ts := by
  intro t ht
  simp at ht

/-- The token in front is no hash sign. -/
theorem of_cons {t : Token} {us : List Token} (h : ts = t :: us)
    (ht : ∀ joint span, t ≠ .mark '#' joint span) : Bare 1 ts := by
  rw [h]
  exact .cons ht (.zero us)

/-- The next tokens, and then those behind them. -/
theorem add {n m : Nat} (h : Bare n ts) (h' : Bare m (ts.drop n)) : Bare (n + m) ts := by
  intro t ht
  rw [List.take_add] at ht
  rcases List.mem_append.1 ht with ht | ht
  · exact h t ht
  · exact h' t ht

/-- A question about the tokens ahead that a hash sign never answers. Most productions are chosen by
such a question. -/
theorem of_look {look : List Token → Bool} (h : look ts = true)
    (hhash : ∀ joint span us, look (.mark '#' joint span :: us) = false) : Bare 1 ts := by
  cases ts with
  | nil =>
      intro t ht
      simp at ht
  | cons t ts =>
      refine .cons (fun joint span heq => ?_) (.zero ts)
      rw [heq, hhash] at h
      cases h

/-- Marks that are ahead are no hash signs, if there is none among the marks that were asked for.
The induction follows the comparison, mark by mark. -/
theorem of_atMarkList {cs : List Char} (hcs : '#' ∉ cs) (h : atMarkList cs ts = true) :
    Bare cs.length ts := by
  fun_induction atMarkList cs ts with
  | case1 ts => exact .zero ts
  | case2 c d joint span ts =>
      obtain rfl := eq_of_beq h
      refine .cons (fun _ _ heq => ?_) (.zero ts)
      cases heq
      simp at hcs
  | case3 c cs d joint span ts hcs' ih =>
      simp only [Bool.and_eq_true, beq_iff_eq] at h
      obtain ⟨⟨rfl, -⟩, h⟩ := h
      refine .cons (fun _ _ heq => ?_) (ih (fun hmem => hcs (by simp [hmem])) h)
      cases heq
      simp at hcs
  | case4 => cases h

/-- A word that is ahead is no hash sign. -/
theorem of_atWord {w : String} (h : atWord w ts = true) : Bare 1 ts := of_look h fun _ _ _ => rfl

/-- The same for marks that are given as a string. -/
theorem of_atMarks {m : String} (hm : '#' ∉ m.toList) (h : atMarks m ts = true) :
    Bare m.length ts := by
  rw [← String.length_toList]
  exact of_atMarkList hm h

end Bare

/-- Behind tokens that are no hash signs, the others are still those of the text. A sequence in
brackets is one token, and its inside is skipped with it. -/
theorem Reads.drop {n k : Nat} {ts : List Token} (h : Reads text n ts) (hbare : Bare k ts) :
    Reads text n (ts.drop k) := by
  induction k generalizing ts with
  | zero => exact h
  | succ k ih =>
      cases ts with
      | nil => exact .nil
      | cons t ts =>
          have ht := hbare t (by simp)
          have hts : Bare k ts := fun u hu => hbare u (by simp [hu])
          rw [List.drop_succ_cons]
          cases h with
          | single _ le _ rest => exact ih (rest.weaken (by omega)) hts
          | group _ le rest => exact ih (rest.weaken le) hts
          -- A documentation comment begins with a hash sign, which is not passed over.
          | outerDoc _ _ => exact absurd rfl (ht _ _)
          | innerDoc _ _ => exact absurd rfl (ht _ _)

/-- Skipping moves over tokens, and keeps track of the place where the last one ended. At the end of
the input it stays there. -/
theorem Input.rest_skip (n : Nat) (i : Input) : (i.skip n).rest = i.rest.drop n := by
  induction n generalizing i with
  | zero => rfl
  | succ n ih =>
      rw [Input.skip, ih, Input.next]
      cases h : i.rest with
      | nil => simp [h]
      | cons t ts => rfl

/-! ### The two judgements -/

section Judgement

variable {α β σ : Type} [Faithful α] [Faithful β] [Faithful σ]

/-- On this input, the result is faithful and the tokens left are those of the text. -/
def KeepsFrom (text : List Char) (i : Input) (p : Parser α) : Prop :=
  ∀ a j, p i = .ok (a, j) → FaithfulTo text a ∧ FaithfulTo text j

/-- So it is on every input that was read from the text. -/
def Keeps (text : List Char) (p : Parser α) : Prop := ∀ i, FaithfulTo text i → KeepsFrom text i p

/-- A parser behind another one succeeds only if both do, the second on what the first leaves. All
lemmas about sequences of parsers start with this one. -/
theorem Parser.bind_eq_ok {α β : Type} {p : Parser α} {f : α → Parser β} {i k : Input} {b : β}
    (h : (p >>= f) i = .ok (b, k)) : ∃ a j, p i = .ok (a, j) ∧ f a j = .ok (b, k) := by
  change (p i >>= fun x => f x.1 x.2) = _ at h
  cases hp : p i with
  | error place =>
      rw [hp] at h
      cases h
  | ok result =>
      rw [hp] at h
      exact ⟨result.1, result.2, rfl, h⟩

variable {p q : Parser α} {f : α → Parser β} {i : Input}

namespace KeepsFrom

/-- What comes behind may use that the first result is faithful. -/
theorem bind (hp : KeepsFrom text i p) (hf : ∀ a, FaithfulTo text a → Keeps text (f a)) :
    KeepsFrom text i (p >>= f) := by
  intro b k h
  obtain ⟨a, j, hpi, hfj⟩ := bind_eq_ok h
  obtain ⟨ha, hj⟩ := hp a j hpi
  exact hf a ha j hj b k hfj

/-- A parser that keeps to the text on every input does so on this one. -/
theorem of (hi : FaithfulTo text i) (hp : Keeps text p) : KeepsFrom text i p := hp i hi

/-- A result without reading is as faithful as it is. -/
theorem pure {a : α} (hi : FaithfulTo text i) (ha : FaithfulTo text a) :
    KeepsFrom text i (Pure.pure a) := by
  intro b j h
  cases h
  exact ⟨ha, hi⟩

/-- A failure has no result that could be wrong. -/
theorem fail : KeepsFrom text i (Parser.fail : Parser α) := by
  intro a j h
  cases h

/-- In each branch the condition is known, which is how a look at the tokens ahead is used. -/
theorem ite {c : Prop} [Decidable c] (hp : c → KeepsFrom text i p) (hq : ¬c → KeepsFrom text i q) :
    KeepsFrom text i (if c then p else q) := by
  split
  · next hc => exact hp hc
  · next hc => exact hq hc

/-- A failure behind anything is a failure. -/
theorem bind_fail {α : Type} {p : Parser α} :
    KeepsFrom text i (p >>= fun _ => (Parser.fail : Parser β)) := by
  intro b k h
  obtain ⟨a, j, -, hfail⟩ := bind_eq_ok h
  cases hfail

/-- Looking at the tokens ahead. -/
theorem ahead {f : List Token → Parser β} (h : KeepsFrom text i (f i.rest)) :
    KeepsFrom text i (Parser.ahead >>= f) := h

/-- Tokens that are no hash signs can be skipped. With a hash sign, the tokens of a documentation
comment would be torn apart. -/
theorem skip {n : Nat} (hi : FaithfulTo text i) (hbare : Bare n i.rest) :
    KeepsFrom text i (Parser.skip n) := by
  intro u j h
  cases h
  refine ⟨trivial, ?_⟩
  show Reads text 0 (i.skip n).rest
  rw [Input.rest_skip]
  exact Reads.drop hi hbare

/-- Tokens that are skipped on a condition, and what comes behind them in any case. -/
theorem skipWhen {c : Prop} [Decidable c] {n : Nat} {f : Unit → Parser β} (hi : FaithfulTo text i)
    (hbare : c → Bare n i.rest) (hf : Keeps text (f ())) :
    KeepsFrom text i (if c then Parser.skip n >>= f else f ()) :=
  .ite (fun hc => (skip hi (hbare hc)).bind fun _ _ => hf) fun _ => hf i hi

/-- Marks that are not ahead leave the input as it is, so that what is known of it can still be used
in the second branch. -/
theorem ifMarks {m : String} (hi : FaithfulTo text i) (hm : '#' ∉ m.toList)
    (hp : Keeps text p) (hq : KeepsFrom text i q) :
    KeepsFrom text i (marksIf m >>= fun found => if found = true then p else q) := by
  intro b k h
  obtain ⟨found, j, hfound, hrest⟩ := bind_eq_ok h
  change (if atMarks m i.rest then _ else _ : Parser Bool) i = _ at hfound
  split at hfound
  · next hahead =>
      cases hfound
      exact hp _ (skip hi (.of_atMarks hm hahead) () _ rfl).2 b k hrest
  · cases hfound
    exact hq b k hrest

/-- A word that is not ahead leaves the input as it is, so what is known of the input can be used in
the second branch. -/
theorem ifWord {w : String} (hi : FaithfulTo text i) (hp : Keeps text p)
    (hq : KeepsFrom text i q) :
    KeepsFrom text i (wordIf w >>= fun found => if found = true then p else q) := by
  intro b k h
  obtain ⟨found, j, hfound, hrest⟩ := bind_eq_ok h
  change (if atWord w i.rest then _ else _ : Parser Bool) i = _ at hfound
  split at hfound
  · next hahead =>
      cases hfound
      exact hp _ (skip hi (.of_atWord hahead) () _ rfl).2 b k hrest
  · cases hfound
    exact hq b k hrest

end KeepsFrom

namespace Keeps

/-- What comes behind may use that the first result is faithful. -/
theorem bind (hp : Keeps text p) (hf : ∀ a, FaithfulTo text a → Keeps text (f a)) :
    Keeps text (p >>= f) := fun i hi => (hp i hi).bind hf

/-- A result without reading is as faithful as it is. -/
theorem pure {a : α} (ha : FaithfulTo text a) : Keeps text (Pure.pure a : Parser α) :=
  fun _ hi => .pure hi ha

/-- Behind a result that says nothing about the text. -/
theorem seq (hp : Keeps text p) (hf : ∀ a, Keeps text (f a)) : Keeps text (p >>= f) :=
  hp.bind fun a _ => hf a

/-- Both branches keep to the text, whatever the condition says. -/
theorem ite {c : Prop} [Decidable c] (hp : Keeps text p) (hq : Keeps text q) :
    Keeps text (if c then p else q) := fun i hi => .ite (fun _ => hp i hi) fun _ => hq i hi

/-- A failure keeps to every text. -/
theorem fail : Keeps text (Parser.fail : Parser α) := fun _ _ => .fail

/-- So does a failure that is reported somewhere else. -/
theorem failAt (place : Position) : Keeps text (Parser.failAt place : Parser α) := by
  intro i _ a j h
  cases h

/-- Nothing comes behind a failure. -/
theorem fail_bind {α : Type} {f : α → Parser β} : Keeps text (Parser.fail >>= f) := by
  intro i _ a j h
  cases h

/-- Nor behind one that is reported somewhere else. -/
theorem failAt_bind {α : Type} {f : α → Parser β} (place : Position) :
    Keeps text (Parser.failAt place >>= f) := by
  intro i _ a j h
  cases h

/-- What comes behind a look at the tokens ahead may depend on them. -/
theorem look {f : List Token → Parser β}
    (h : ∀ i, FaithfulTo text i → KeepsFrom text i (f i.rest)) :
    Keeps text (Parser.ahead >>= f) := fun i hi => h i hi

/-! Parsers that read nothing. -/

/-- The tokens themselves are no outlines. -/
theorem ahead : Keeps text Parser.ahead := by
  intro i hi a j h
  cases h
  exact ⟨faithful_tokens _, hi⟩

/-- The place of the next token. -/
theorem here : Keeps text Parser.here := by
  intro i hi a j h
  cases h
  exact ⟨trivial, hi⟩

/-- Whether there are no tokens left. -/
theorem atEnd : Keeps text Parser.atEnd := by
  intro i hi a j h
  cases h
  exact ⟨trivial, hi⟩

/-- The span from a place to the last token read. -/
theorem since (start : Position) : Keeps text (Parser.since start) := by
  intro i hi a j h
  cases h
  exact ⟨trivial, hi⟩

/-- The whole input, which is faithful if it was. -/
theorem get : Keeps text (MonadState.get : Parser Input) := by
  intro i hi a j h
  cases h
  exact ⟨hi, hi⟩

/-- A parser may go back to an input it has seen. -/
theorem set {j : Input} (hj : FaithfulTo text j) :
    Keeps text (MonadState.set j : Parser PUnit) := by
  intro i _ a k h
  cases h
  exact ⟨trivial, hj⟩

/-! ### Words, marks and literals -/

/-- A word, if it is ahead. -/
theorem wordIf (w : String) : Keeps text (Parser.wordIf w) := by
  refine look fun i hi => .ite (fun hahead => ?_) fun _ => .pure hi trivial
  exact (KeepsFrom.skip hi (.of_atWord hahead)).bind fun _ _ => .pure trivial

/-- What follows depends on whether a word is ahead, which is read then. -/
theorem ifWord (w : String) (hp : Keeps text p) (hq : Keeps text q) :
    Keeps text (Parser.wordIf w >>= fun found => if found = true then p else q) :=
  .seq (.wordIf w) fun _ => .ite hp hq

/-- A word that has to be ahead. -/
theorem word (w : String) : Keeps text (Parser.word w) :=
  .seq (.wordIf w) fun _ => .ite .fail (.pure trivial)

/-- Marks, if they are ahead. The hash sign is not among them. -/
theorem marksIf {m : String} (hm : '#' ∉ m.toList) : Keeps text (Parser.marksIf m) := by
  refine look fun i hi => .ite (fun hahead => ?_) fun _ => .pure hi trivial
  exact (KeepsFrom.skip hi (.of_atMarks hm hahead)).bind fun _ _ => .pure trivial

/-- What follows depends on whether marks are ahead, which are read then. -/
theorem ifMarks {m : String} (hm : '#' ∉ m.toList) (hp : Keeps text p) (hq : Keeps text q) :
    Keeps text (Parser.marksIf m >>= fun found => if found = true then p else q) :=
  .seq (.marksIf hm) fun _ => .ite hp hq

/-- Marks that have to be ahead. -/
theorem marks {m : String} (hm : '#' ∉ m.toList) : Keeps text (Parser.marks m) :=
  .seq (.marksIf hm) fun _ => .ite .fail (.pure trivial)

/-- What follows depends on whether there are tokens left. -/
theorem ifEnd (hp : Keeps text p) (hq : Keeps text q) :
    Keeps text (Parser.atEnd >>= fun found => if found = true then p else q) :=
  .seq .atEnd fun _ => .ite hp hq

/-- Any word, keywords included. -/
theorem anyWord : Keeps text Parser.anyWord := by
  refine look fun i hi => ?_
  split
  · next w span ts hts =>
      have hbare : Bare 1 i.rest := .of_cons hts (by simp)
      exact (KeepsFrom.skip hi hbare).bind fun _ _ => .pure trivial
  · exact .fail

/-- A word that is no keyword. -/
theorem identifier : Keeps text Parser.identifier := .seq .ahead fun _ => .ite .anyWord .fail

/-- A word that is no keyword, or one of those given. -/
theorem identifierOr (words : List String) : Keeps text (Parser.identifierOr words) :=
  .seq .ahead fun _ => .ite .anyWord .identifier

/-- A lifetime. -/
theorem lifetime : Keeps text Parser.lifetime := by
  refine look fun i hi => .ite (fun hahead => ?_) fun _ => .fail
  exact .skip hi (.of_look hahead fun _ _ _ => rfl)

/-- A lifetime, if one is ahead. -/
theorem lifetimeIf : Keeps text Parser.lifetimeIf := by
  refine look fun i hi => .ite (fun hahead => ?_) fun _ => .pure hi trivial
  exact (KeepsFrom.skip hi (.of_look hahead fun _ _ _ => rfl)).bind fun _ _ => .pure trivial

/-- A literal is the node of its token, or of two tokens if it has a minus sign. This is the one
parser that makes literals, and the one place where it matters that tokens stand in the text. -/
theorem literal : Keeps text Parser.literal := by
  refine look fun i hi => ?_
  have hreads : Reads text 0 i.rest := hi
  split
  · next name span ts hts =>
      have hbare : Bare 1 i.rest := .of_cons hts (by simp)
      refine (KeepsFrom.skip hi hbare).bind fun _ _ => .pure ?_
      rw [hts] at hreads
      cases hreads with
      | single _ _ stands _ => exact .literal (.plain stands)
  · next name span ts hts =>
      have hbare : Bare 1 i.rest := .of_cons hts (by simp)
      refine .ite (fun _ => (KeepsFrom.skip hi hbare).bind fun _ _ => .pure ?_) fun _ => .fail
      rw [hts] at hreads
      cases hreads with
      | single _ _ stands _ => exact .literal (.plain stands)
  · -- A minus sign and a number. Both tokens stand in the text, the number somewhere behind the
    -- sign.
    next joint minus number span ts hts =>
      have hbare : Bare 2 i.rest := hts ▸ .cons (by simp) (.cons (by simp) (.zero ts))
      refine .ite (fun _ => (KeepsFrom.skip hi hbare).bind fun _ _ => .pure ?_) fun _ => .fail
      rw [hts] at hreads
      cases hreads with
      | single _ _ sign rest =>
          cases rest with
          | single _ le stands _ => exact .literal (.negative sign le stands)
  · exact .fail

/-! ### Combinators -/

/-- A parser that failed is as if it had not been started: nothing is found, and the input is the
one from before. -/
theorem attempt (hp : Keeps text p) : Keeps text (Parser.attempt p) := by
  intro i hi a? j h
  rw [Parser.attempt] at h
  cases hpi : p i with
  | error place =>
      rw [hpi] at h
      cases h
      exact ⟨faithful_none, hi⟩
  | ok result =>
      obtain ⟨a, k⟩ := result
      rw [hpi] at h
      cases h
      obtain ⟨ha, hk⟩ := hp i hi a _ hpi
      exact ⟨faithful_some.2 ha, hk⟩

/-- The tokens that a parser went over are no outlines. -/
theorem withTokens (hp : Keeps text p) : Keeps text (Parser.withTokens p) :=
  .seq .ahead fun _ => .bind hp fun _ ha => .seq .ahead fun _ => .pure ⟨ha, faithful_tokens _⟩

/-- The inside of brackets, and then what comes behind them. The tokens of the inside were read from
the text as well. -/
theorem group {delimiter : Delimiter} (hp : Keeps text p) :
    Keeps text (Parser.group delimiter p) := by
  intro i hi a j h
  have hreads : Reads text 0 i.rest := hi
  rw [Parser.group] at h
  split at h
  · next d inside span rest hrest =>
      rw [hrest] at hreads
      split at h
      · split at h
        · cases h
        · next b k hinside =>
            cases h
            cases hreads with
            -- A group is not read as a single token.
            | single hsingle _ _ _ => cases hsingle
            | group inner le behind =>
                exact ⟨(hp _ inner _ _ hinside).1, behind.weaken le⟩
      · cases h
  · cases h

/-- The steps of a loop, by induction on their number. What has been collected so far is kept from
step to step, and a loop that runs out of steps fails. -/
theorem iterate {step : σ → Parser (Step σ β)}
    (hstep : ∀ state, FaithfulTo text state → Keeps text (step state)) (steps : Nat) {state : σ}
    (hstate : FaithfulTo text state) : Keeps text (Parser.iterate step steps state) := by
  induction steps generalizing state with
  | zero => exact .fail
  | succ steps ih =>
      refine .bind (hstep state hstate) fun next hnext => ?_
      cases next with
      | more state => exact ih hnext
      | done result => exact .pure hnext

/-- A loop keeps to the text if each of its steps does. -/
theorem loop {step : σ → Parser (Step σ β)} {state : σ} (hstate : FaithfulTo text state)
    (hstep : ∀ state, FaithfulTo text state → Keeps text (step state)) :
    Keeps text (Parser.loop step state) :=
  .seq .ahead fun _ => .iterate hstep _ hstate

variable {collect : Parser (List Outline)}

/-- What is collected may depend on the tokens ahead. -/
theorem whileLook {more : List Token → Bool}
    (hcollect : ∀ i, FaithfulTo text i → more i.rest = true → KeepsFrom text i collect) :
    Keeps text (Parser.whileAhead more collect) := by
  refine loop faithful_nil fun found hfound => look fun i hi =>
    .ite (fun hmore => ?_) fun _ => .pure hi hfound
  exact (hcollect i hi hmore).bind fun own hown => .pure (faithful_append.2 ⟨hfound, hown⟩)

/-- Outlines that are collected as long as the tokens ahead say so. -/
theorem whileAhead {more : List Token → Bool} (hcollect : Keeps text collect) :
    Keeps text (Parser.whileAhead more collect) := .whileLook fun i hi _ => hcollect i hi

/-- Outlines that are collected as long as there are tokens. -/
theorem untilEnd (hcollect : Keeps text collect) : Keeps text (Parser.untilEnd collect) :=
  .whileAhead hcollect

/-- Elements with commas between them, up to the end. -/
theorem terminated (hcollect : Keeps text collect) : Keeps text (Parser.terminated collect) := by
  refine loop faithful_nil fun found hfound => .ifEnd (.pure hfound) ?_
  refine .bind hcollect fun own hown => ?_
  have hmore := faithful_append.2 ⟨hfound, hown⟩
  exact .ifEnd (.pure hmore) (.seq (.marks (by decide)) fun _ => .pure hmore)

/-- Elements with a separator between them, up to tokens that end the list or to an element without
a separator behind it. -/
theorem separated {separator : String} (hseparator : '#' ∉ separator.toList)
    {ends : List Token → Bool} (hcollect : Keeps text collect) :
    Keeps text (Parser.separated separator ends collect) := by
  refine loop faithful_nil fun found hfound => .seq .ahead fun _ => .ite (.pure hfound) ?_
  refine .bind hcollect fun own hown => ?_
  have hmore := faithful_append.2 ⟨hfound, hown⟩
  exact .seq (.marksIf hseparator) fun _ => .ite (.pure hmore) (.pure hmore)

/-- Elements with a separator between them, up to tokens that have to end the list. -/
theorem enclosed {separator : String} (hseparator : '#' ∉ separator.toList)
    {ends : List Token → Bool} (hcollect : Keeps text collect) :
    Keeps text (Parser.enclosed separator ends collect) := by
  refine loop faithful_nil fun found hfound => .seq .ahead fun _ => .ite (.pure hfound) ?_
  refine .bind hcollect fun own hown => .seq .ahead fun _ => ?_
  have hmore := faithful_append.2 ⟨hfound, hown⟩
  exact .ite (.pure hmore) (.seq (.marks hseparator) fun _ => .pure hmore)

end Keeps

end Judgement

/-- Every production keeps to the text. -/
structure Productions.Keep (text : List Char) (G : Productions) : Prop where
  expression : ∀ structs, Keeps text (G.expression structs)
  statementExpression : Keeps text G.statementExpression
  operand : ∀ structs, Keeps text (G.operand structs)
  operation : ∀ structs least left, FaithfulTo text left →
    Keeps text (G.operation structs least left)
  type : ∀ plus, Keeps text (G.type plus)
  bound : ∀ captures constant, Keeps text (G.bound captures constant)
  pattern : Keeps text G.pattern
  statements : Keeps text G.statements
  item : ∀ start attributes, FaithfulTo text attributes → Keeps text (G.item start attributes)
  imports : ∀ root, Keeps text (G.imports root)
  namedFields : Keeps text G.namedFields

end Arborist.Grammar
