import Arborist.Proofs.Text.WhiteSpace
import Arborist.Rules.CallText

/-!
# `Arborist.Proofs.Rules.CallText`: what is read off the text of a call

Receivers and arguments are found by cutting a text from its ends. `Spaced` says what the text was:
given parts in their order, with nothing but white space around them. Comments are not white space,
so a receiver that is read off may end in one.

The name of a macro is a path, and `macroBase_eq_iff` says what its last part is.
-/

set_option autoImplicit false

namespace Arborist.Rules

open Text

/-- The text consists of the parts in their order, with white space before, between and behind
them. -/
def Spaced : (parts : List (List Char)) → (text : List Char) → Prop
  | [], text => Blank text
  | part :: parts, text =>
    ∃ blank rest, Blank blank ∧ Spaced parts rest ∧ text = blank ++ (part ++ rest)

/-- A last part can be put behind a spaced text. White space behind the text then is white space in
front of the part. -/
theorem Spaced.concat {parts : List (List Char)} {text last blank : List Char}
    (h : Spaced parts text) (hblank : Blank blank) :
    Spaced (parts ++ [last]) (text ++ (last ++ blank)) := by
  induction parts generalizing text with
  | nil => exact ⟨text, blank, h, hblank, rfl⟩
  | cons part parts ih =>
      obtain ⟨before, rest, hbefore, hrest, rfl⟩ := h
      exact ⟨before, rest ++ (last ++ blank), hbefore, ih hrest, by simp⟩

/-- Cutting the last part off a text, white space behind it included, undoes `Spaced.concat`. -/
theorem Spaced.of_dropEnd? {parts : List (List Char)} {text last rest : List Char}
    (hcut : dropEnd? last (trimEnd text) = some rest) (h : Spaced parts rest) :
    Spaced (parts ++ [last]) text := by
  obtain ⟨blank, hblank, htext⟩ := eq_trimEnd_append_blank text
  rw [htext, dropEnd?_eq_some_iff.1 hcut, List.append_assoc]
  exact h.concat hblank

/-- A text is what is left without the white space at its end, and this white space. -/
theorem spaced_trimEnd (text : List Char) : Spaced [trimEnd text] text := by
  obtain ⟨blank, hblank, htext⟩ := eq_trimEnd_append_blank text
  exact ⟨[], blank, List.forall_mem_nil _, hblank, htext⟩

/-- The receiver is what stands in front of the dot. The rule cuts the text from its end, one part
after the other, and each cut is undone by `Spaced.of_dropEnd?`. -/
theorem spaced_of_receiver? {text method receiver : List Char}
    (h : receiver? text method = some receiver) :
    receiver ≠ [] ∧ Spaced [receiver, ['.'], method, ['('], [')']] text := by
  simp only [receiver?, Option.bind_eq_bind, Option.bind_eq_some_iff] at h
  obtain ⟨upToClosing, hclosing, upToOpening, hopening, upToMethod, hmethod, upToDot, hdot, h⟩ := h
  split at h
  · cases h
  · rename_i hne
    cases h
    refine ⟨by simpa using hne, ?_⟩
    exact .of_dropEnd? hclosing (.of_dropEnd? hopening (.of_dropEnd? hmethod (.of_dropEnd? hdot
      (spaced_trimEnd upToDot))))

/-- White space is cut off at the end only. -/
theorem prefix_trimEnd (text : List Char) : trimEnd text <+: text := by
  obtain ⟨blank, -, htext⟩ := eq_trimEnd_append_blank text
  exact ⟨blank, htext.symm⟩

/-- So is a given ending. -/
theorem prefix_of_dropEnd? {ending text rest : List Char} (h : dropEnd? ending text = some rest) :
    rest <+: text :=
  ⟨ending, (dropEnd?_eq_some_iff.1 h).symm⟩

/-- Nothing is cut off in front of the receiver. Hence it starts where the call starts. -/
theorem prefix_of_receiver? {text method receiver : List Char}
    (h : receiver? text method = some receiver) : receiver <+: text := by
  simp only [receiver?, Option.bind_eq_bind, Option.bind_eq_some_iff] at h
  obtain ⟨upToClosing, hclosing, upToOpening, hopening, upToMethod, hmethod, upToDot, hdot, h⟩ := h
  split at h
  · cases h
  · cases h
    have hcut : ∀ {ending before rest : List Char},
        dropEnd? ending (trimEnd before) = some rest → rest <+: before :=
      fun hcut => (prefix_of_dropEnd? hcut).trans (prefix_trimEnd _)
    exact (prefix_trimEnd _).trans <| (hcut hdot).trans <| (hcut hmethod).trans <|
      (hcut hopening).trans (hcut hclosing)

/-- The text invokes a macro with a single argument, which a comma may follow. -/
inductive Invokes (argument : List Char) : (text : List Char) → Prop where
  | intro {path behind : List Char} {comma : List (List Char)} {opening closing : Char}
      (hpath : '!' ∉ path) (hbrackets : (opening, closing) ∈ [('(', ')'), ('[', ']')])
      (hcomma : comma ∈ [[], [[',']]])
      (hspaced : Spaced ([opening] :: argument :: comma ++ [[closing]]) behind) :
      Invokes argument (path ++ '!' :: behind)

/-- What is between two brackets, if the text starts and ends with them. -/
theorem between?_eq_some_iff {opening closing : Char} {text inner : List Char} :
    between? opening closing text = some inner ↔ text = opening :: (inner ++ [closing]) := by
  simp [between?, dropStart?_eq_some_iff, dropEnd?_eq_some_iff, Option.bind_eq_some_iff]

/-- What stands between the brackets is the argument, and a comma behind it or none. White space on
both sides of the comma is cut off with it. -/
theorem spaced_of_inner (inner : List Char) :
    ∃ comma ∈ [[], [[',']]],
      Spaced (trimEnd ((dropEnd? [','] (trim inner)).getD (trim inner)) :: comma) inner := by
  obtain ⟨left, right, hleft, hright, hinner⟩ := eq_blank_append_trim inner
  cases hcut : dropEnd? [','] (trim inner) with
  -- No comma at the end, so only white space is cut off.
  | none =>
      obtain ⟨blank, hblank, htrim⟩ := eq_trimEnd_append_blank (trim inner)
      refine ⟨[], by simp, left, blank ++ right, hleft, ?_, ?_⟩
      · exact List.forall_mem_append.2 ⟨hblank, hright⟩
      · rw [Option.getD_none, ← List.append_assoc _ blank, ← htrim, ← List.append_assoc]
        exact hinner
  | some front =>
      obtain ⟨blank, hblank, hfront⟩ := eq_trimEnd_append_blank front
      refine ⟨[[',']], by simp, left, blank ++ ([','] ++ right), hleft,
        ⟨blank, right, hblank, hright, rfl⟩, ?_⟩
      rw [Option.getD_some, ← List.append_assoc _ blank, ← hfront, ← List.append_assoc front,
        ← dropEnd?_eq_some_iff.1 hcut, ← List.append_assoc]
      exact hinner

/-- The argument is all that an invocation has in its brackets, and no comma splits it. The brackets
are round or square, and the path in front of the exclamation mark is not looked at. -/
theorem invokes_of_singleArgument? {text argument : List Char}
    (h : singleArgument? text = some argument) :
    argument ≠ [] ∧ hasTopLevelComma {} argument = false ∧ Invokes argument text := by
  simp only [singleArgument?, Option.bind_eq_bind, Option.bind_eq_some_iff] at h
  obtain ⟨⟨path, behind⟩, hsplit, inner, hbetween, h⟩ := h
  obtain ⟨rfl, hpath⟩ := of_splitFirst? hsplit
  obtain ⟨comma, hcomma, hinner⟩ := spaced_of_inner inner
  split at h
  · cases h
  · rename_i hsingle
    cases h
    simp only [Bool.or_eq_true, List.isEmpty_iff, not_or, Bool.not_eq_true] at hsingle
    refine ⟨hsingle.1, hsingle.2, ?_⟩
    -- Round brackets are tried first, then square ones. Braces are never tried.
    obtain ⟨opening, closing, hbrackets, htrim⟩ : ∃ opening closing,
        (opening, closing) ∈ [('(', ')'), ('[', ']')] ∧
          trim behind = opening :: (inner ++ [closing]) := by
      cases hround : between? '(' ')' (trim behind) with
      | some found =>
          rw [hround] at hbetween
          cases hbetween
          exact ⟨_, _, by simp, between?_eq_some_iff.1 hround⟩
      | none =>
          rw [hround] at hbetween
          exact ⟨_, _, by simp, between?_eq_some_iff.1 hbetween⟩
    obtain ⟨left, right, hleft, hright, hbehind⟩ := eq_blank_append_trim behind
    refine .intro hpath hbrackets hcomma
      ⟨left, inner ++ ([closing] ++ right), hleft, hinner.concat hright, ?_⟩
    rw [hbehind, htrim]
    simp

/-! ### Paths of macros -/

/-- What is found stands behind two colons. There is nothing here about their being the last
ones. -/
theorem of_afterLastColons? {cs after : List Char} (h : afterLastColons? cs = some after) :
    ∃ front, cs = front ++ ':' :: ':' :: after := by
  induction cs with
  | nil => cases h
  | cons c cs ih =>
      unfold afterLastColons? at h
      split at h
      · -- Colons further on count rather than those here.
        rename_i found hfound
        obtain ⟨front, rfl⟩ := ih (hfound.trans h)
        exact ⟨c :: front, rfl⟩
      · split at h
        · rename_i hcolon
          cases h
          exact ⟨[], by rw [hcolon]; rfl⟩
        · cases h
      · cases h

/-- Without colons nothing is found. -/
theorem afterLastColons?_of_not_mem {cs : List Char} (h : ':' ∉ cs) :
    afterLastColons? cs = none := by
  cases hafter : afterLastColons? cs with
  | none => rfl
  | some after =>
      obtain ⟨front, rfl⟩ := of_afterLastColons? hafter
      simp at h

/-- The last two colons count, however many are in front of them. Of three colons in a row these are
the second and the third. -/
theorem afterLastColons?_append {after : List Char} (h : ':' ∉ after) (front : List Char) :
    afterLastColons? (front ++ ':' :: ':' :: after) = some after := by
  induction front with
  | nil =>
      -- Behind the two colons there is no third one.
      have hsecond : afterLastColons? (':' :: after) = none := by
        unfold afterLastColons?
        rw [afterLastColons?_of_not_mem h]
        cases after with
        | nil => rfl
        | cons c after =>
            have hc : c ≠ ':' := fun heq => h (by simp [heq])
            simp [hc]
      unfold afterLastColons?
      simp only [List.nil_append, hsecond, if_true]
  | cons c front ih =>
      rw [List.cons_append]
      unfold afterLastColons?
      rw [ih]

/-- The last part of a path is what its name is or ends in, behind a double colon. A part must have
no colon of its own for this. -/
theorem macroBase_eq_iff {name base : String} (h : ':' ∉ base.toList) :
    macroBase name = base ↔ name = base ∨ ∃ path, name = path ++ "::" ++ base := by
  constructor
  · intro hbase
    rw [macroBase] at hbase
    cases hafter : afterLastColons? name.toList with
    -- There is no double colon, so the name is its own last part.
    | none =>
        rw [hafter, Option.getD_none, String.ofList_toList] at hbase
        exact .inl hbase
    | some after =>
        rw [hafter, Option.getD_some] at hbase
        obtain ⟨front, hname⟩ := of_afterLastColons? hafter
        refine .inr ⟨String.ofList front, ?_⟩
        rw [← String.toList_inj, hname, ← hbase]
        simp
  · rintro (rfl | ⟨path, rfl⟩)
    · rw [macroBase, afterLastColons?_of_not_mem h, Option.getD_none, String.ofList_toList]
    · have hname : (path ++ "::" ++ base).toList = path.toList ++ ':' :: ':' :: base.toList := by
        simp
      rw [macroBase, hname, afterLastColons?_append h, Option.getD_some, String.ofList_toList]

end Arborist.Rules
