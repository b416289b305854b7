import Arborist.Proofs.Rules.CallText
import Arborist.Proofs.Text.Lines
import Arborist.Suppression

/-!
# `Arborist.Proofs.Suppression.Directive`: which lines hold a directive

The reader of directives takes every pair of slashes in a line, skips the slashes and bangs behind
it, and then cuts off one part after the other, with white space trimmed in between. `Holds` says
what a comment must look like for this to succeed, without a word about the order of the cuts.

* `ofComment?_eq_some_iff_holds`: what is read of a comment is what it holds. The reader trims a
  text at its end long before it looks at what stands there; `Tidy.dropStart?_trim_iff` is the
  reason that this makes no difference.
* `ofLine?_eq_some_iff`: the directive of a line is the one that starts furthest left. The reader
  does not try the pairs of slashes that overlap with one before, but there is nothing else to be
  read.
* `holds_spaced`: a directive that is written with any white space around its parts is held by its
  comment.
-/

set_option autoImplicit false

namespace Arborist.Directive

open Text

/-! ### The form of a directive -/

/-- The text begins with the parts in their order, each behind white space or none; `rest` follows
the last one. -/
def BeginsWith : (parts : List (List Char)) → (rest text : List Char) → Prop
  | [], rest, text => text = rest
  | part :: parts, rest, text =>
    ∃ blank tail, Blank blank ∧ BeginsWith parts rest tail ∧ text = blank ++ (part ++ tail)

/-- A character that a comment may go on with behind its pair of slashes. -/
def IsMark (c : Char) : Prop := c = '/' ∨ c = '!'

/-- What the keys of a directive stand behind. -/
def opening (fileWide : Bool) : List Char :=
  if fileWide then "allow-file(".toList else "allow(".toList

/-- The text between double quotes. -/
def quoted (text : String) : List Char := '"' :: (text.toList ++ ['"'])

/-- The text behind the closing parenthesis gives a reason. -/
def GivesReason (reason : String) (after : List Char) : Prop :=
  '"' ∉ reason.toList ∧ ∃ rest, BeginsWith ["reason".toList, ['='], quoted reason] rest after

/-- The pieces between commas, trimmed, without those that are blank. -/
def keysIn (inside : List Char) : List String :=
  (((inside.splitOn ',').map trim).filter (· ≠ [])).map String.ofList

/-- A text that starts with a pair of slashes holds the directive: behind slashes, bangs and white
space stands `treelint:`, then `allow(` or `allow-file(`, the keys up to the first closing
parenthesis, and a reason or none. -/
inductive Holds (d : Directive) : (comment : List Char) → Prop where
  | intro {marks body inside after : List Char} (hpair : ['/', '/'] <+: marks)
      (hmarks : ∀ c ∈ marks, IsMark c)
      (hbody : BeginsWith ["treelint:".toList, opening d.fileWide ++ inside ++ [')']] after body)
      (hinside : ')' ∉ inside) (hkeys : d.rules = keysIn inside) (hsome : d.rules ≠ [])
      (hreason : ∀ reason, d.reason = some reason ↔ GivesReason reason after) :
      Holds d (marks ++ body)

/-! ### Reading a comment -/

/-- The reason that is read is the one that the text gives. The reader trims the text at its end
first; this takes off white space behind the closing quote at most, so the reason is not changed. -/
theorem reasonOf?_eq_some_iff {after : List Char} {reason : String} :
    reasonOf? after = some reason ↔ GivesReason reason after := by
  have hword : Tidy "reason".toList := by decide
  have hequals : Tidy ['='] := by decide
  have hquote : Tidy ['"'] := by decide
  simp only [reasonOf?, Option.bind_eq_bind, Option.bind_eq_some_iff,
    hword.dropStart?_trim_iff (by decide), hequals.dropStart?_trimStart_iff (by decide),
    hquote.dropStart?_trimStart_iff (by decide)]
  constructor
  · rintro ⟨_, ⟨blank, behind, hblank, rfl, rfl⟩, _, ⟨blank', hblank', hbehind⟩, _,
      ⟨blank'', hblank'', rfl⟩, ⟨text, rest⟩, hsplit, hreason⟩
    obtain rfl := Option.some.inj hreason
    obtain ⟨rfl, htext⟩ := of_splitFirst? hsplit
    -- White space at the end was cut off before the reason was looked for.
    obtain ⟨space, -, hspace⟩ := eq_trimEnd_append_blank behind
    rw [hbehind] at hspace
    refine ⟨by simpa using htext, rest ++ space, blank, behind, hblank,
      ⟨blank', _, hblank', ⟨blank'', _, hblank'', rfl, rfl⟩, ?_⟩, rfl⟩
    rw [hspace]
    simp [quoted]
  · rintro ⟨htext, _, blank, _, hblank,
      ⟨blank', _, hblank', ⟨blank'', rest, hblank'', rfl, rfl⟩, rfl⟩, rfl⟩
    have htrim := trimEnd_append_cons (c := '"') rfl
      (blank' ++ (['='] ++ (blank'' ++ ('"' :: reason.toList)))) rest
    simp only [List.append_assoc] at htrim
    refine ⟨_, ⟨blank, _, hblank, rfl, rfl⟩, blank'' ++ (quoted reason ++ trimEnd rest),
      ⟨blank', hblank', ?_⟩, _, ⟨blank'', hblank'', ?_⟩, ⟨reason.toList, trimEnd rest⟩,
      splitFirst?_append htext _, by simp⟩
    · simpa [quoted] using htrim
    · simp [quoted]

/-- The directive that stands behind its opening. -/
def ofKeys? (fileWide : Bool) (rest : List Char) : Option Directive := do
  let (inside, after) ← splitFirst? ')' rest
  let rules := ((splitAll ',' inside).map trim).filter (!·.isEmpty)
  if rules.isEmpty then none else some ⟨rules.map String.ofList, reasonOf? after, fileWide⟩

/-- The opening for the whole file is tried first. Only if it is not there is the other one tried,
so keys that are missing behind the first opening are not looked for behind the second. -/
theorem ofComment?_eq (cs : List Char) :
    ofComment? cs = (dropStart? "treelint:".toList cs).bind fun behind =>
      match dropStart? "allow-file(".toList (trim behind) with
      | some rest => ofKeys? true rest
      | none => (dropStart? "allow(".toList (trim behind)).bind (ofKeys? false) := by
  rw [ofComment?]
  cases dropStart? "treelint:".toList cs with
  | none => rfl
  | some behind =>
      simp only [Option.bind_eq_bind, Option.bind_some]
      cases dropStart? "allow-file(".toList (trim behind) with
      | some rest => rfl
      | none => cases dropStart? "allow(".toList (trim behind) <;> rfl

/-- The keys as the reader gets them, which splits at commas by its own function and tests for empty
pieces with `isEmpty`. -/
theorem keysIn_eq (inside : List Char) :
    keysIn inside =
      (((splitAll ',' inside).map trim).filter (!·.isEmpty)).map String.ofList := by
  rw [keysIn, splitAll_eq_splitOn]
  congr 2
  funext piece
  cases piece <;> rfl

/-- Behind its opening, a directive needs a closing parenthesis and at least one key in front of
it. -/
theorem ofKeys?_eq_some_iff {fileWide : Bool} {rest : List Char} {d : Directive} :
    ofKeys? fileWide rest = some d ↔
      ∃ inside after, splitFirst? ')' rest = some (inside, after) ∧ keysIn inside ≠ [] ∧
        d = ⟨keysIn inside, reasonOf? after, fileWide⟩ := by
  simp only [ofKeys?, Option.bind_eq_bind, Option.bind_eq_some_iff, Prod.exists, keysIn_eq]
  refine exists_congr fun inside => exists_congr fun after => and_congr_right fun _ => ?_
  constructor
  · intro h
    split at h
    · cases h
    · rename_i hsome
      exact ⟨by simpa using hsome, (Option.some.inj h).symm⟩
  · rintro ⟨hsome, rfl⟩
    rw [if_neg (by simpa using hsome)]

/-- No text has both openings. -/
theorem dropStart?_opening {text rest : List Char}
    (h : dropStart? (opening true) text = some rest) : dropStart? (opening false) text = none := by
  rw [dropStart?_eq_some_iff.1 h]
  rfl

/-- What is read of a comment has one of the two openings. That one of them is tried first makes no
difference, since no text has both. -/
theorem ofComment?_eq_some_iff {cs : List Char} {d : Directive} :
    ofComment? cs = some d ↔
      ∃ behind fileWide rest, dropStart? "treelint:".toList cs = some behind ∧
        dropStart? (opening fileWide) (trim behind) = some rest ∧
        ofKeys? fileWide rest = some d := by
  simp only [ofComment?_eq, Option.bind_eq_some_iff, exists_and_left]
  refine exists_congr fun behind => and_congr_right fun _ => ?_
  -- The opening for the whole file is tried first.
  rw [Bool.exists_bool]
  cases hfile : dropStart? (opening true) (trim behind) with
  | some rest =>
      rw [show dropStart? "allow-file(".toList (trim behind) = some rest from hfile]
      simp [dropStart?_opening hfile]
  | none =>
      rw [show dropStart? "allow-file(".toList (trim behind) = none from hfile]
      simp [Option.bind_eq_some_iff, opening]

/-- A comment without its marks, trimmed, and what is read of it. Trimming at the end reaches the
text behind the closing parenthesis at most, and the reason is read from there with its end trimmed
anyway. -/
theorem ofComment?_trim_eq_some_iff {body : List Char} {d : Directive} :
    ofComment? (trim body) = some d ↔
      ∃ inside after,
        BeginsWith ["treelint:".toList, opening d.fileWide ++ inside ++ [')']] after body ∧
        ')' ∉ inside ∧ d.rules = keysIn inside ∧ d.rules ≠ [] ∧ d.reason = reasonOf? after := by
  have hword : Tidy "treelint:".toList := by decide
  have hopening : ∀ fileWide, Tidy (opening fileWide) ∧ opening fileWide ≠ [] := by decide
  have hreason : ∀ after, reasonOf? (trimEnd after) = reasonOf? after := by
    intro after
    rw [reasonOf?, reasonOf?, trim_trimEnd]
  simp only [ofComment?_eq_some_iff, hword.dropStart?_trim_iff (by decide)]
  constructor
  · rintro ⟨_, fileWide, _, ⟨blank, behind, hblank, rfl, rfl⟩, hrest, hkeys⟩
    rw [trim_trimEnd, (hopening fileWide).1.dropStart?_trim_iff (hopening fileWide).2] at hrest
    obtain ⟨blank', rest, hblank', rfl, rfl⟩ := hrest
    obtain ⟨inside, cut, hsplit, hsome, rfl⟩ := ofKeys?_eq_some_iff.1 hkeys
    -- The closing parenthesis is no white space, so it is not trimmed away.
    obtain ⟨after, rfl, hinside, rfl⟩ := (splitFirst?_trimEnd_iff rfl).1 hsplit
    refine ⟨inside, after, ⟨blank, _, hblank, ⟨blank', after, hblank', rfl, ?_⟩, rfl⟩, hinside, rfl,
      hsome, hreason after⟩
    simp
  · rintro ⟨inside, _, ⟨blank, _, hblank, ⟨blank', after, hblank', rfl, rfl⟩, rfl⟩, hinside, hrules,
      hsome, hd⟩
    refine ⟨_, d.fileWide, trimEnd (inside ++ ')' :: after), ⟨blank, _, hblank, rfl, rfl⟩, ?_, ?_⟩
    · rw [trim_trimEnd, (hopening d.fileWide).1.dropStart?_trim_iff (hopening d.fileWide).2]
      exact ⟨blank', inside ++ ')' :: after, hblank', by simp, rfl⟩
    · refine ofKeys?_eq_some_iff.2 ⟨inside, trimEnd after, ?_, hrules ▸ hsome, ?_⟩
      · exact (splitFirst?_trimEnd_iff rfl).2 ⟨after, rfl, hinside, rfl⟩
      · rw [← hrules, hreason, ← hd]

/-- The test of the reader for marks. -/
theorem isMark_iff {c : Char} : (c == '/' || c == '!') = true ↔ IsMark c := by
  simp [IsMark]

/-- Marks are no white space, so trimming does not take them off. -/
theorem IsMark.not_white {c : Char} (h : IsMark c) : isWhiteSpace c = false := by
  rcases h with rfl | rfl <;> decide

/-- The marks of a comment end where the white space or the word behind them begins. Neither of
these starts with a mark. -/
theorem dropWhile_marks {marks body rest : List Char} {parts : List (List Char)}
    (hmarks : ∀ c ∈ marks, IsMark c)
    (hbody : BeginsWith ("treelint:".toList :: parts) rest body) :
    (marks ++ body).dropWhile (fun c => c == '/' || c == '!') = body := by
  rw [List.dropWhile_append_of_pos fun c hc => isMark_iff.2 (hmarks c hc)]
  obtain ⟨blank, tail, hblank, -, rfl⟩ := hbody
  cases blank with
  | nil => rfl
  | cons c blank =>
      -- The white space between the marks and the word is no mark.
      have hc : ¬ (c == '/' || c == '!') = true := by
        intro hmark
        have hwhite := (isMark_iff.1 hmark).not_white
        rw [hblank c (by simp)] at hwhite
        cases hwhite
      exact List.dropWhile_cons_of_neg (p := fun c => c == '/' || c == '!') hc

/-- What is read of a comment is what it holds. The marks that `Holds` speaks of are those that the
reader drops, because neither white space nor the word behind them starts with a mark. -/
theorem ofComment?_eq_some_iff_holds {comment : List Char} (hpair : ['/', '/'] <+: comment)
    {d : Directive} :
    ofComment? (trim (comment.dropWhile fun c => c == '/' || c == '!')) = some d ↔
      Holds d comment := by
  constructor
  · intro h
    obtain ⟨inside, after, hbody, hinside, hkeys, hsome, hreason⟩ :=
      ofComment?_trim_eq_some_iff.1 h
    rw [← List.takeWhile_append_dropWhile (p := fun c => c == '/' || c == '!') (l := comment)]
    refine .intro ?_ ?_ hbody hinside hkeys hsome fun reason => ?_
    · obtain ⟨rest, rfl⟩ := hpair
      simp
    · intro c hc
      exact isMark_iff.1 (List.all_eq_true.1 List.all_takeWhile c hc)
    · rw [hreason, reasonOf?_eq_some_iff]
  · rintro ⟨-, hmarks, hbody, hinside, hkeys, hsome, hreason⟩
    rw [dropWhile_marks hmarks hbody]
    refine ofComment?_trim_eq_some_iff.2 ⟨_, _, hbody, hinside, hkeys, hsome, ?_⟩
    exact Option.ext fun reason => (hreason reason).trans reasonOf?_eq_some_iff.symm

/-! ### The first comment of a line that holds a directive -/

/-- The directive stands in the line, and no directive starts further left. -/
def FirstIn (d : Directive) (line : List Char) : Prop :=
  ∃ before comment, line = before ++ comment ∧ Holds d comment ∧
    ∀ before' comment', line = before' ++ comment' → before'.length < before.length →
      ∀ d', ¬ Holds d' comment'

/-- A directive is held by a text that starts with a pair of slashes only. -/
theorem Holds.pair {d : Directive} {comment : List Char} (h : Holds d comment) :
    ['/', '/'] <+: comment := by
  obtain ⟨hpair, -⟩ := h
  exact hpair.trans (List.prefix_append _ _)

/-- A further slash in front of a comment is one more mark. So a pair that starts with the second
slash of another pair has no directive of its own. -/
theorem Holds.cons {d : Directive} {comment : List Char} (h : Holds d comment) :
    Holds d ('/' :: comment) := by
  obtain ⟨hpair, hmarks, hbody, hinside, hkeys, hsome, hreason⟩ := h
  rw [← List.cons_append]
  refine .intro ?_ ?_ hbody hinside hkeys hsome hreason
  · obtain ⟨rest, rfl⟩ := hpair
    exact ⟨'/' :: rest, rfl⟩
  · exact List.forall_mem_cons.2 ⟨.inl rfl, hmarks⟩

/-- The first directive of a line starts at its first character, or none does and it is the first
one of the rest. -/
theorem firstIn_cons_iff {d : Directive} {c : Char} {cs : List Char} :
    FirstIn d (c :: cs) ↔ Holds d (c :: cs) ∨ (∀ d', ¬ Holds d' (c :: cs)) ∧ FirstIn d cs := by
  constructor
  · rintro ⟨before, comment, hline, hd, hfirst⟩
    cases before with
    | nil =>
        rw [List.nil_append] at hline
        exact .inl (hline ▸ hd)
    -- The comment starts further on, so none starts here.
    | cons b before =>
        obtain ⟨rfl, rfl⟩ := List.cons.inj hline
        refine .inr ⟨hfirst [] _ rfl (by simp), before, comment, rfl, hd, ?_⟩
        intro before' comment' hrest hlt
        exact hfirst (c :: before') comment' (by rw [hrest, List.cons_append]) (by simpa using hlt)
  · rintro (hd | ⟨hnone, before, comment, rfl, hd, hfirst⟩)
    · exact ⟨[], c :: cs, rfl, hd, by simp⟩
    · refine ⟨c :: before, comment, rfl, hd, ?_⟩
      intro before' comment' hline hlt
      cases before' with
      | nil =>
          rw [List.nil_append] at hline
          exact hline ▸ hnone
      | cons b before' =>
          exact hfirst before' comment' (List.cons.inj hline).2 (by simpa using hlt)

/-- The directive of a line is the one that starts furthest left. The induction follows the search
for pairs of slashes, which goes on behind both slashes of a pair that held nothing. -/
theorem ofLine?_eq_some_iff {line : List Char} {d : Directive} :
    ofLine? line = some d ↔ FirstIn d line := by
  rw [ofLine?]
  fun_induction comments line with
  | case1 rest ih =>
      have hpair : ['/', '/'] <+: '/' :: '/' :: rest := ⟨rest, rfl⟩
      rw [List.findSome?_cons, firstIn_cons_iff]
      simp only [← ofComment?_eq_some_iff_holds hpair]
      cases hread : ofComment? (trim (('/' :: '/' :: rest).dropWhile fun c => c == '/' || c == '!'))
        with
      | some d' => simp
      | none =>
          -- The pair that starts with the second slash has nothing new to read.
          have hsecond : ∀ d', ¬ Holds d' ('/' :: rest) := by
            intro d' hd'
            rw [(ofComment?_eq_some_iff_holds hpair).2 hd'.cons] at hread
            cases hread
          simp only [ih, firstIn_cons_iff, hsecond]
          simp
  | case2 c rest hne ih =>
      have hnone : ∀ d', ¬ Holds d' (c :: rest) := by
        intro d' hd'
        obtain ⟨rest', hrest⟩ := hd'.pair
        obtain ⟨rfl, rfl⟩ := List.cons.inj hrest
        exact hne rest' rfl rfl
      rw [ih, firstIn_cons_iff]
      simp [hnone]
  | case3 =>
      constructor
      · intro h
        cases h
      · rintro ⟨before, comment, hline, hd, -⟩
        rw [(List.append_eq_nil_iff.1 hline.symm).2] at hd
        exact absurd hd.pair (by decide)

/-! ### Written directives -/

/-- A key that can be written in a directive. -/
structure IsKey (key : List Char) : Prop where
  nonempty : key ≠ []
  tidy : Tidy key
  comma : ',' ∉ key
  closing : ')' ∉ key

/-- A reason as it is written, if there is one. -/
def reasonParts : Option String → List (List Char)
  | none => []
  | some reason => ["reason".toList, ['='], quoted reason]

/-- The parts that a directive is written with. -/
def parts (fileWide : Bool) (keys : List (List Char)) (reason : Option String) :
    List (List Char) :=
  "treelint:".toList :: opening fileWide :: (keys.intersperse [','] ++ [')'] :: reasonParts reason)

open Rules (Spaced)

/-- A spaced text can be cut at any of its parts. What is in front and what is behind are spaced
texts again. -/
theorem spaced_append_cons {parts behind : List (List Char)} {part text : List Char}
    (h : Spaced (parts ++ part :: behind) text) :
    ∃ front after, Spaced parts front ∧ Spaced behind after ∧ text = front ++ (part ++ after) := by
  induction parts generalizing text with
  | nil =>
      obtain ⟨blank, rest, hblank, hrest, rfl⟩ := h
      exact ⟨blank, rest, hblank, hrest, rfl⟩
  | cons first parts ih =>
      obtain ⟨blank, rest, hblank, hrest, rfl⟩ := h
      obtain ⟨front, after, hfront, hafter, rfl⟩ := ih hrest
      exact ⟨blank ++ (first ++ front), after, ⟨blank, front, hblank, hfront, rfl⟩, hafter, by simp⟩

/-- A key with white space around it: it is no longer than up to the next comma or parenthesis, and
trimming gives it back. -/
theorem IsKey.surrounded {key : List Char} (h : IsKey key) {left right : List Char}
    (hleft : Blank left) (hright : Blank right) :
    ',' ∉ left ++ (key ++ right) ∧ ')' ∉ left ++ (key ++ right) ∧
      trim (left ++ (key ++ right)) = key := by
  -- Commas and parentheses are no white space.
  have hblank : ∀ {c : Char}, isWhiteSpace c = false → c ∉ left ∧ c ∉ right := by
    intro c hc
    constructor
    · intro hmem
      simp [hleft c hmem] at hc
    · intro hmem
      simp [hright c hmem] at hc
  have hcomma := hblank (c := ',') rfl
  have hclosing := hblank (c := ')') rfl
  refine ⟨?_, ?_, h.tidy.trim_surrounded hleft hright⟩
  · simp [hcomma, h.comma]
  · simp [hclosing, h.closing]

/-- Keys with commas between them are the trimmed pieces between the commas. No key has a comma or a
closing parenthesis, so neither is found too early. -/
theorem splitOn_spaced_keys {keys : List (List Char)} (hne : keys ≠ [])
    (hkeys : ∀ key ∈ keys, IsKey key) {inside : List Char}
    (h : Spaced (keys.intersperse [',']) inside) :
    (inside.splitOn ',').map trim = keys ∧ ')' ∉ inside := by
  induction keys generalizing inside with
  | nil => exact absurd rfl hne
  | cons key keys ih =>
      have hkey := hkeys key (by simp)
      cases keys with
      | nil =>
          obtain ⟨left, right, hleft, hright, rfl⟩ := h
          obtain ⟨hcomma, hclosing, htrim⟩ := hkey.surrounded hleft hright
          rw [List.splitOn_eq_singleton hcomma, List.map_singleton, htrim]
          exact ⟨rfl, hclosing⟩
      | cons next keys =>
          -- The next part is the comma, and the remaining keys stand behind it.
          obtain ⟨left, _, hleft, ⟨right, rest, hright, hrest, rfl⟩, rfl⟩ := h
          obtain ⟨hcomma, hclosing, htrim⟩ := hkey.surrounded hleft hright
          obtain ⟨hsplit, hnone⟩ := ih (by simp) (fun k hk => hkeys k (by simp [hk])) hrest
          have hinside : left ++ (key ++ (right ++ ([','] ++ rest))) =
              (left ++ (key ++ right)) ++ ',' :: rest := by simp
          rw [hinside, List.splitOn_append_cons_self_of_not_mem hcomma, List.map_cons, htrim,
            hsplit]
          refine ⟨rfl, ?_⟩
          simpa [hnone] using hclosing

/-- Keys that are written with commas between them are read back, whatever white space is around
them. -/
theorem keysIn_spaced {keys : List (List Char)} (hne : keys ≠ []) (hkeys : ∀ key ∈ keys, IsKey key)
    {inside : List Char} (h : Spaced (keys.intersperse [',']) inside) :
    keysIn inside = keys.map String.ofList := by
  rw [keysIn, (splitOn_spaced_keys hne hkeys h).1, List.filter_eq_self.2]
  intro key hkey
  simpa using (hkeys key hkey).nonempty

/-- The written reason is read back, and none if none is written. In the second case there is only
white space behind the parenthesis. -/
theorem reasonOf?_spaced {reason : Option String} (hreason : ∀ text ∈ reason, '"' ∉ text.toList)
    {after : List Char} (h : Spaced (reasonParts reason) after) : reasonOf? after = reason := by
  cases reason with
  | none =>
      have hblank : trim after = [] := trim_eq_nil_iff.2 h
      rw [reasonOf?, hblank]
      rfl
  | some text =>
      obtain ⟨blank, _, hblank, ⟨blank', _, hblank', ⟨blank'', rest, hblank'', -, rfl⟩, rfl⟩,
        rfl⟩ := h
      refine reasonOf?_eq_some_iff.2 ⟨hreason text rfl, rest, blank, _, hblank, ?_, rfl⟩
      exact ⟨blank', _, hblank', ⟨blank'', rest, hblank'', rfl, rfl⟩, rfl⟩

/-- A written directive is the one that its comment holds: the keys end at the closing parenthesis
of the directive, since no key has one, and the reason at its second quote. -/
theorem holds_spaced {marks body : List Char} {fileWide : Bool} {keys : List (List Char)}
    {reason : Option String} (hmarks : ∀ c ∈ marks, IsMark c) (hne : keys ≠ [])
    (hkeys : ∀ key ∈ keys, IsKey key) (hreason : ∀ text ∈ reason, '"' ∉ text.toList)
    (hbody : Spaced (parts fileWide keys reason) body) :
    Holds ⟨keys.map String.ofList, reason, fileWide⟩ ('/' :: '/' :: (marks ++ body)) := by
  obtain ⟨blank, _, hblank, ⟨blank', _, hblank', hrest, rfl⟩, rfl⟩ := hbody
  -- The closing parenthesis is a part of its own, so the text splits there.
  obtain ⟨inside, after, hinside, hafter, rfl⟩ := spaced_append_cons hrest
  rw [← List.cons_append, ← List.cons_append]
  refine .intro ⟨marks, rfl⟩ ?_ ⟨blank, _, hblank, ⟨blank', after, hblank', rfl, ?_⟩, rfl⟩
    (splitOn_spaced_keys hne hkeys hinside).2 (keysIn_spaced hne hkeys hinside).symm
    (by simpa using hne) fun text => ?_
  · simpa [IsMark] using hmarks
  · simp
  · rw [← reasonOf?_eq_some_iff, reasonOf?_spaced hreason hafter]

/-- In front of the comment there is no pair of slashes, but its own first slash may make one with
the last character of the code. -/
theorem Holds.firstIn_append {d : Directive} {code comment : List Char} (h : Holds d comment)
    (hcode : ¬ ['/', '/'] <:+: code) : FirstIn d (code ++ comment) := by
  induction code with
  | nil => exact ⟨[], comment, rfl, h, by simp⟩
  | cons c code ih =>
      have hrest : ¬ ['/', '/'] <:+: code := fun hinner =>
        hcode (hinner.trans (List.suffix_cons c code).isInfix)
      rw [List.cons_append, firstIn_cons_iff]
      by_cases hpair : ['/', '/'] <+: c :: (code ++ comment)
      · -- Two slashes in a row: the code has none, so one of them is the last character of the
        -- code.
        cases code with
        | nil =>
            obtain ⟨rest, hline⟩ := hpair
            obtain ⟨rfl, -⟩ := List.cons.inj hline
            exact .inl h.cons
        | cons b code =>
            obtain ⟨rest, hline⟩ := hpair
            obtain ⟨rfl, hsecond⟩ := List.cons.inj hline
            obtain ⟨rfl, -⟩ := List.cons.inj hsecond
            exact absurd ⟨[], code, rfl⟩ hcode
      · exact .inr ⟨fun d' hd' => hpair hd'.pair, ih hrest⟩

/-- Which directives are read. A line has a directive exactly if some pair of slashes in it starts a
comment that holds one, and then it has the one that starts furthest left. In particular, let `code`
have no pair of slashes, and let a comment behind it have further slashes and bangs, or none, and
then the parts of a directive with any white space around them: the line has this directive, with
these keys, this reason and this scope. -/
theorem reads_first_directive :
    (∀ (line : List Char) (d : Directive), ofLine? line = some d ↔ FirstIn d line) ∧
    ∀ (code marks body : List Char) (fileWide : Bool) (keys : List (List Char))
      (reason : Option String), ¬ ['/', '/'] <:+: code → (∀ c ∈ marks, IsMark c) → keys ≠ [] →
      (∀ key ∈ keys, IsKey key) → (∀ text ∈ reason, '"' ∉ text.toList) →
      Spaced (parts fileWide keys reason) body →
      ofLine? (code ++ '/' :: '/' :: (marks ++ body)) =
        some ⟨keys.map String.ofList, reason, fileWide⟩ := by
  refine ⟨fun line d => ofLine?_eq_some_iff, ?_⟩
  intro code marks body fileWide keys reason hcode hmarks hne hkeys hreason hbody
  have hholds := holds_spaced hmarks hne hkeys hreason hbody
  exact ofLine?_eq_some_iff.2 (hholds.firstIn_append hcode)

/-- A comment behind code that ends in a slash. The keys have slashes and a parenthesis in them, and
a no-break space counts as white space. -/
theorem reads_first_directive_crowded :
    let body := " treelint:\u00a0allow-file( a//b ,(c)reason = \"x )\" ".toList
    Spaced (parts true ["a//b".toList, "(c".toList] (some "x )")) body ∧
      ofLine? ("a/".toList ++ '/' :: '/' :: (['!'] ++ body)) =
        some ⟨["a//b", "(c"], some "x )", true⟩ := by
  intro body
  have hspace : Blank [' '] := by decide
  have hnone : Blank [] := by decide
  have hbody : Spaced (parts true ["a//b".toList, "(c".toList] (some "x )")) body :=
    ⟨_, _, hspace, ⟨['\u00a0'], _, by decide, ⟨_, _, hspace, ⟨_, _, hspace, ⟨_, _, hnone,
      ⟨_, _, hnone, ⟨_, _, hnone, ⟨_, _, hspace, ⟨_, _, hspace, hspace, rfl⟩, rfl⟩, rfl⟩, rfl⟩,
      rfl⟩, rfl⟩, rfl⟩, rfl⟩, by decide⟩
  have hkeys : ∀ key ∈ ["a//b".toList, "(c".toList], IsKey key := by
    intro key hkey
    simp only [List.mem_cons, List.not_mem_nil, or_false] at hkey
    rcases hkey with rfl | rfl <;> exact ⟨by decide, by decide, by decide, by decide⟩
  refine ⟨hbody, ?_⟩
  exact reads_first_directive.2 "a/".toList ['!'] body true ["a//b".toList, "(c".toList]
    (some "x )") (by decide) (by simp [IsMark]) (by simp) hkeys (by decide) hbody

end Arborist.Directive
