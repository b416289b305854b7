import Arborist.Proofs.Rules.CallText
import Arborist.Proofs.Tree.Ordered
import Arborist.Rules.DebugMacro
import Arborist.Source.Token
import Mathlib.Data.List.Induction

/-!
# `Arborist.Proofs.Rules.MacroArguments`: commas between the arguments of a macro

An argument list is read one character after another, by a scan that counts brackets and knows texts
in double quotes, but no character literals. `Piece` says what the list is made of: tokens and the
white space around them. The scan is compared with the pieces: behind each of them it stands where
it stood before, and it sees the commas between the pieces (`CommaScan.passes_renderAll`). That is
so as long as no character literal is a double quote or a bracket, which the scan would take for the
real one (`misleads`); and the literal of a comma is taken for a comma.

`single_argument_of_pieces` says what follows for invocations with one argument and with several,
and `arguments_misread` that the condition is needed.
-/

set_option autoImplicit false

namespace Arborist.Rules

open Text
open Source (Delimiter)

/-- The characters that a scan of an argument list takes for a quote or a bracket. -/
def structural : List Char := ['"', '(', ')', '[', ']', '\x7b', '\x7d']

/-- A character that words, numbers and marks are made of, except for the comma. -/
def IsSymbol (c : Char) : Prop := isWhiteSpace c = false ∧ c ∉ '\'' :: ',' :: structural

instance (c : Char) : Decidable (IsSymbol c) := inferInstanceAs (Decidable (_ ∧ _))

/-- A part of a text in double quotes. -/
inductive TextPart where
  | plain (c : Char) (h : c ≠ '"' ∧ c ≠ '\\')
  | escape (c : Char)

/-- What stands between the quotes of a character literal. -/
inductive CharacterBody where
  | plain (c : Char) (h : c ≠ '\'' ∧ c ≠ '\\')
  | escape (c : Char)
  /-- An escape with two digits. -/
  | byte (high low : Char) (h : IsSymbol high ∧ IsSymbol low)
  /-- An escape with digits in braces. -/
  | code (digits : List Char) (h : ∀ d ∈ digits, IsSymbol d)

/-- A piece of an argument list outside of brackets. A word or a number is as many pieces as it has
characters. -/
inductive Atom where
  | blank (c : Char) (h : isWhiteSpace c = true)
  | symbol (c : Char) (h : IsSymbol c)
  | comma
  /-- An apostrophe and the first character of a lifetime's name. -/
  | lifetime (c : Char) (h : IsSymbol c)
  | text (parts : List TextPart)
  | character (body : CharacterBody)

/-- A piece of an argument list. -/
inductive Piece where
  | atom (a : Atom)
  | group (delimiter : Delimiter) (inside : List Piece)

/-- The characters of a part, as they stand between the quotes. -/
def TextPart.render : TextPart → List Char
  | .plain c _ => [c]
  | .escape c => ['\\', c]

namespace CharacterBody

/-- The characters of the body, without the quotes. -/
@[simp] def render : CharacterBody → List Char
  | .plain c _ => [c]
  | .escape c => ['\\', c]
  | .byte high low _ => ['\\', 'x', high, low]
  | .code digits _ => '\\' :: 'u' :: '\x7b' :: (digits ++ ['\x7d'])

/-- The literal of a character that the scan takes for a quote or a bracket. -/
def misleads : CharacterBody → Bool
  | .plain c _ | .escape c => structural.contains c
  | _ => false

/-- The literal of a comma. -/
def isComma : CharacterBody → Bool
  | .plain c _ | .escape c => c = ','
  | _ => false

end CharacterBody

namespace Atom

/-- The characters of an atom, with the quotes of a literal. -/
@[simp] def render : Atom → List Char
  | .blank c _ => [c]
  | .symbol c _ => [c]
  | .comma => [',']
  | .lifetime c _ => ['\'', c]
  | .text parts => '"' :: (parts.flatMap TextPart.render ++ ['"'])
  | .character body => '\'' :: (body.render ++ ['\''])

/-- Only a character literal can mislead the scan. -/
def misleads : Atom → Bool
  | .character body => body.misleads
  | _ => false

/-- A comma, or the literal of one. -/
def showsComma : Atom → Bool
  | .comma => true
  | .character body => body.isComma
  | _ => false

end Atom

namespace Piece

mutual

/-- The characters of a piece, with the brackets of a group. -/
def render : Piece → List Char
  | .atom a => a.render
  | .group delimiter inside => delimiter.opening :: (renderAll inside ++ [delimiter.closing])

/-- The characters of pieces that follow each other. -/
def renderAll : List Piece → List Char
  | [] => []
  | p :: ps => p.render ++ renderAll ps

end

mutual

/-- Somewhere in the piece there is a character literal that misleads the scan. -/
def misleads : Piece → Bool
  | .atom a => a.misleads
  | .group _ inside => anyMisleads inside

/-- One of the pieces misleads the scan. -/
def anyMisleads : List Piece → Bool
  | [] => false
  | p :: ps => p.misleads || anyMisleads ps

end

/-- White space. -/
def isBlank : Piece → Bool
  | .atom (.blank _ _) => true
  | _ => false

/-- A comma between arguments. -/
def isComma : Piece → Bool
  | .atom .comma => true
  | _ => false

/-- A comma between arguments, or the literal of one. -/
def showsComma : Piece → Bool
  | .atom a => a.showsComma
  | .group _ _ => false

/-- A list of pieces is empty, or it starts with an atom or a group. What is inside a group is a
list of pieces as well, and is covered by the induction. -/
theorem pieces_induction {Q : List Piece → Prop} (nil : Q [])
    (atom : ∀ a ps, Q ps → Q (.atom a :: ps))
    (group : ∀ delimiter inside ps, Q inside → Q ps → Q (.group delimiter inside :: ps)) :
    (ps : List Piece) → Q ps
  | [] => nil
  | .atom a :: ps => atom a ps (pieces_induction nil atom group ps)
  | .group delimiter inside :: ps =>
    group delimiter inside ps (pieces_induction nil atom group inside)
      (pieces_induction nil atom group ps)

/-- No pieces make no text. -/
@[simp] theorem renderAll_nil : renderAll [] = [] := by rw [renderAll]

/-- Pieces are written one after the other. -/
@[simp] theorem renderAll_cons (p : Piece) (ps : List Piece) :
    renderAll (p :: ps) = p.render ++ renderAll ps := by rw [renderAll]

/-- The text of two lists of pieces one after the other. -/
theorem renderAll_append (ps qs : List Piece) :
    renderAll (ps ++ qs) = renderAll ps ++ renderAll qs := by
  induction ps with
  | nil => simp
  | cons p ps ih => simp [ih]

/-- An atom is written as itself. -/
theorem render_atom (a : Atom) : (atom a).render = a.render := by rw [render]

/-- A group is its inside between its brackets. -/
theorem render_group (delimiter : Delimiter) (inside : List Piece) :
    (group delimiter inside).render =
      delimiter.opening :: (renderAll inside ++ [delimiter.closing]) := by rw [render]

/-- A list misleads the scan if one of its pieces does. -/
theorem anyMisleads_cons (p : Piece) (ps : List Piece) :
    anyMisleads (p :: ps) = (p.misleads || anyMisleads ps) := by rw [anyMisleads]

/-- An atom misleads as itself. -/
theorem misleads_atom (a : Atom) : (atom a).misleads = a.misleads := by rw [misleads]

/-- A group misleads as its inside does. -/
theorem misleads_group (delimiter : Delimiter) (inside : List Piece) :
    (group delimiter inside).misleads = anyMisleads inside := by rw [misleads]

end Piece

/-! ### The scan -/

namespace CommaScan

/-- Where the scan is behind one more character. -/
def step (s : CommaScan) (c : Char) : CommaScan :=
  if s.inText then
    if s.escaped then { s with escaped := false }
    else if c = '\\' then { s with escaped := true }
    else { s with inText := c ≠ '"' }
  else if c = '"' then { s with inText := true }
  else if c = '(' ∨ c = '[' ∨ c = '\x7b' then { s with depth := s.depth + 1 }
  else if c = ')' ∨ c = ']' ∨ c = '\x7d' then { s with depth := s.depth - 1 }
  else s

/-- Where the scan is behind some characters. -/
def after (s : CommaScan) (cs : List Char) : CommaScan := cs.foldl step s

/-- The scan takes the character for a comma between arguments. -/
def sees (s : CommaScan) (c : Char) : Bool := !s.inText && c = ',' && s.depth = 0

/-- The scan outside of texts, behind `depth` open brackets. -/
def outside (depth : Int) : CommaScan := { depth }

/-- The scan of one character after the other: the character may be a comma between arguments, and
the scan goes on behind it. -/
theorem hasTopLevelComma_cons (s : CommaScan) (c : Char) (cs : List Char) :
    hasTopLevelComma s (c :: cs) = (s.sees c || hasTopLevelComma (s.step c) cs) := by
  rw [hasTopLevelComma, sees, step]
  cases hin : s.inText with
  | true =>
      simp only [Bool.not_true, Bool.false_and, Bool.false_or, if_true]
      split
      · rfl
      · split <;> rfl
  -- Outside of a text; a comma is seen at depth 0 only.
  | false =>
      by_cases hcomma : c = ','
      · by_cases hdepth : s.depth = 0 <;> simp [hcomma, hdepth]
      · simp only [hcomma, Bool.false_eq_true, if_false, false_and, decide_false, Bool.and_false,
          Bool.false_and, Bool.false_or]
        split
        · rfl
        · split
          · rfl
          · split <;> rfl

/-- Where the scan is behind two texts. -/
theorem after_append (s : CommaScan) (cs ds : List Char) :
    s.after (cs ++ ds) = (s.after cs).after ds := List.foldl_append

/-- A character leaves the depth as it is or moves it by one, and only brackets outside of texts do
the latter. -/
theorem depth_step (s : CommaScan) (c : Char) :
    (s.step c).depth = s.depth ∨ (s.step c).depth = s.depth + 1 ∨
      (s.step c).depth = s.depth - 1 := by
  rw [step]
  split_ifs <;> simp

/-- The depth stays within the number of characters read. So the counter of a scan from depth zero
fits into 32 bits for every text that has fewer than 2³¹ characters, and never wraps. -/
theorem natAbs_depth_after_le (s : CommaScan) (cs : List Char) :
    (s.after cs).depth.natAbs ≤ s.depth.natAbs + cs.length := by
  induction cs generalizing s with
  | nil => exact Nat.le_refl _
  | cons c cs ih =>
      have hrest : (s.after (c :: cs)).depth.natAbs ≤ (s.step c).depth.natAbs + cs.length :=
        ih (s.step c)
      rw [List.length_cons]
      rcases depth_step s c with hstep | hstep | hstep <;> omega

/-- A comma is seen in the first of two texts, or in the second from where the scan is then. So a
text can be treated piece by piece, with the scan handed on. -/
theorem hasTopLevelComma_append (s : CommaScan) (cs ds : List Char) :
    hasTopLevelComma s (cs ++ ds) =
      (hasTopLevelComma s cs || hasTopLevelComma (s.after cs) ds) := by
  induction cs generalizing s with
  | nil => simp [hasTopLevelComma, after]
  | cons c cs ih =>
      rw [List.cons_append, hasTopLevelComma_cons, hasTopLevelComma_cons, ih, Bool.or_assoc]
      rfl

/-- Behind the characters the scan is where it was, and in between it has seen a comma if `seen`. -/
structure Passes (s : CommaScan) (cs : List Char) (seen : Bool) : Prop where
  after : s.after cs = s
  seen : hasTopLevelComma s cs = seen

/-- Nothing is passed over. -/
theorem Passes.nil (s : CommaScan) : Passes s [] false := ⟨rfl, by rw [hasTopLevelComma]⟩

/-- What the scan passes over in two parts it passes over at once. -/
theorem Passes.append {s : CommaScan} {cs ds : List Char} {seen seen' : Bool}
    (h : Passes s cs seen) (h' : Passes s ds seen') : Passes s (cs ++ ds) (seen || seen') :=
  ⟨by rw [after_append, h.after, h'.after],
    by rw [hasTopLevelComma_append, h.after, h.seen, h'.seen]⟩

/-- What lies between two characters the second of which leads the scan back. This is how quotes and
brackets are passed over. -/
theorem Passes.enclose {s t : CommaScan} {first last : Char} {cs : List Char} {seen : Bool}
    (hfirst : s.step first = t) (hlast : t.step last = s) (hsees : s.sees first = false)
    (hsees' : t.sees last = false) (h : Passes t cs seen) :
    Passes s (first :: (cs ++ [last])) seen := by
  constructor
  · rw [CommaScan.after, List.foldl_cons, hfirst, List.foldl_append]
    show ((t.after cs).after [last]) = s
    rw [h.after]
    exact hlast
  · rw [hasTopLevelComma_cons, hsees, hfirst, hasTopLevelComma_append, h.after, h.seen,
      hasTopLevelComma_cons, hsees', hasTopLevelComma]
    simp

/-- The scan inside of a text. -/
def quoted (depth : Int) : CommaScan := { depth, inText := true }

/-- Outside of texts, a character that is neither a quote nor a bracket changes nothing. It is seen
only if it is a comma and no bracket is open. -/
theorem passes_char {c : Char} (h : structural.contains c = false) (depth : Int) :
    Passes (outside depth) [c] (depth = 0 && c = ',') := by
  simp only [structural, List.contains_eq_mem, List.mem_cons, List.not_mem_nil, or_false,
    decide_eq_false_iff_not, not_or] at h
  constructor
  · simp [CommaScan.after, step, outside, h]
  · rw [hasTopLevelComma_cons, hasTopLevelComma, Bool.or_false]
    exact Bool.and_comm ..

/-- Other characters than these and the comma are passed over. -/
theorem passes_plain {c : Char} (h : structural.contains c = false) (hne : c ≠ ',')
    (depth : Int) : Passes (outside depth) [c] false := by
  simpa [hne] using passes_char h depth

/-- So are those of words, numbers and marks. -/
theorem passes_symbol {c : Char} (h : IsSymbol c) (depth : Int) :
    Passes (outside depth) [c] false := by
  obtain ⟨-, h⟩ := h
  simp only [List.mem_cons, not_or] at h
  exact passes_plain (by simpa using h.2.2) h.2.1 depth

/-- So is white space, to which no quote, bracket or comma belongs. This is checked for the few
characters that matter, and not for all white space. -/
theorem passes_blank {c : Char} (h : isWhiteSpace c = true) (depth : Int) :
    Passes (outside depth) [c] false := by
  have hdark : (',' :: structural).all (!isWhiteSpace ·) = true := by decide
  have hmem : c ∉ ',' :: structural := fun hc => by
    have hc := List.all_eq_true.1 hdark c hc
    rw [h] at hc
    cases hc
  simp only [List.mem_cons, not_or] at hmem
  exact passes_plain (by simpa using hmem.2) hmem.1 depth

/-- A text whose characters are all passed over one by one is passed over. -/
theorem passes_all {s : CommaScan} {cs : List Char} (h : ∀ c ∈ cs, Passes s [c] false) :
    Passes s cs false := by
  induction cs with
  | nil => exact .nil s
  | cons c cs ih =>
      exact (h c (by simp)).append (ih fun d hd => h d (by simp [hd]))

/-- Brackets hide the commas between them. The depth is one more inside, and behind the closing
bracket it is what it was; which kind of bracket it is does not matter. -/
theorem passes_brackets {delimiter : Delimiter} {depth : Int} {cs : List Char} {seen : Bool}
    (h : Passes (outside (depth + 1)) cs seen) :
    Passes (outside depth) (delimiter.opening :: (cs ++ [delimiter.closing])) seen := by
  have hopening : (outside depth).step delimiter.opening = outside (depth + 1) := by
    cases delimiter <;> rfl
  have hclosing : (outside (depth + 1)).step delimiter.closing = outside (depth + 1 - 1) := by
    cases delimiter <;> rfl
  rw [Int.add_sub_cancel] at hclosing
  refine h.enclose hopening hclosing ?_ ?_
  · cases delimiter <;> rfl
  · cases delimiter <;> rfl

/-- Inside of a text in quotes nothing is seen. A backslash takes the next character with it, so an
escaped quote does not end the text. -/
theorem passes_textPart (part : TextPart) (depth : Int) :
    Passes (quoted depth) part.render false := by
  cases part with
  | plain c h =>
      constructor
      · simp [TextPart.render, CommaScan.after, step, quoted, h]
      · simp [TextPart.render, hasTopLevelComma_cons, sees, quoted, hasTopLevelComma]
  | escape c =>
      constructor
      · simp [TextPart.render, CommaScan.after, step, quoted]
      · simp [TextPart.render, hasTopLevelComma_cons, sees, quoted, step, hasTopLevelComma]

/-- The scan knows no character literals, so it reads what stands between their quotes as if it were
code. It comes back unless this is a quote or a bracket, and it sees the literal of a comma. -/
theorem passes_characterBody {body : CharacterBody} (h : body.misleads = false) (depth : Int) :
    Passes (outside depth) body.render (depth = 0 && body.isComma) := by
  have hbackslash : Passes (outside depth) ['\\'] false := passes_symbol (by decide) depth
  cases body with
  | plain c _ => exact passes_char h depth
  | escape c => exact hbackslash.append (passes_char h depth)
  | byte high low hdigits =>
      have hx : Passes (outside depth) ['x'] false := passes_symbol (by decide) depth
      have hrest := (passes_symbol hdigits.1 depth).append (passes_symbol hdigits.2 depth)
      simpa [CharacterBody.isComma] using hbackslash.append (hx.append hrest)
  -- The braces of this escape are brackets to the scan, and they match.
  | code digits hdigits =>
      have hu : Passes (outside depth) ['u'] false := passes_symbol (by decide) depth
      have hinner := passes_all fun d hd => passes_symbol (hdigits d hd) (depth + 1)
      have hbraces : Passes (outside depth) ('\x7b' :: (digits ++ ['\x7d'])) false :=
        @passes_brackets .brace _ _ _ hinner
      simpa [CharacterBody.isComma] using hbackslash.append (hu.append hbraces)

/-- A text in quotes is passed over as a whole, and no comma is seen in it. -/
theorem passes_text (parts : List TextPart) (depth : Int) :
    Passes (outside depth) ('"' :: (parts.flatMap TextPart.render ++ ['"'])) false := by
  have hparts : Passes (quoted depth) (parts.flatMap TextPart.render) false := by
    induction parts with
    | nil => exact .nil _
    | cons part parts ih => exact (passes_textPart part depth).append ih
  exact hparts.enclose rfl rfl rfl rfl

/-- One case for each kind of atom: only a comma and the literal of a comma are seen, and only
outside of brackets. -/
theorem passes_atom {a : Atom} (h : a.misleads = false) (depth : Int) :
    Passes (outside depth) a.render (depth = 0 && a.showsComma) := by
  have hquote : Passes (outside depth) ['\''] false := passes_plain (by decide) (by decide) depth
  cases a with
  | blank c hc => simpa [Atom.showsComma] using passes_blank hc depth
  | symbol c hc => simpa [Atom.showsComma] using passes_symbol hc depth
  | comma => exact passes_char (by decide) depth
  | lifetime c hc => simpa [Atom.showsComma] using hquote.append (passes_symbol hc depth)
  | text parts => simpa [Atom.showsComma] using passes_text parts depth
  | character body =>
      exact (passes_characterBody h depth).enclose hquote.after hquote.after rfl rfl

/-- The scan passes over pieces that do not mislead it. It sees the commas between them, and the
literals of commas, unless it is inside of brackets. -/
theorem passes_renderAll {ps : List Piece} (h : Piece.anyMisleads ps = false) {depth : Int}
    (hdepth : 0 ≤ depth) :
    Passes (outside depth) (Piece.renderAll ps) (depth = 0 && ps.any Piece.showsComma) := by
  induction ps using Piece.pieces_induction generalizing depth with
  | nil => simpa using Passes.nil (outside depth)
  | atom a ps ih =>
      rw [Piece.anyMisleads_cons, Piece.misleads_atom, Bool.or_eq_false_iff] at h
      rw [Piece.renderAll_cons, Piece.render_atom, List.any_cons, Bool.and_or_distrib_left]
      exact (passes_atom h.1 depth).append (ih h.2 hdepth)
  | group delimiter inside ps ihInside ih =>
      rw [Piece.anyMisleads_cons, Piece.misleads_group, Bool.or_eq_false_iff] at h
      -- One bracket deeper no comma is seen.
      have hinside := ihInside h.1 (show 0 ≤ depth + 1 by omega)
      rw [decide_eq_false (show depth + 1 ≠ 0 by omega), Bool.false_and] at hinside
      have hgroup : Passes (outside depth) (Piece.group delimiter inside).render false := by
        rw [Piece.render_group]
        exact passes_brackets hinside
      simpa [Piece.showsComma] using hgroup.append (ih h.2 hdepth)

end CommaScan

/-! ### The last character -/

namespace Piece

/-- A piece that is neither white space nor a comma ends in a character that is neither. So
trimming, and cutting off a comma, do not reach into it. -/
theorem exists_last {p : Piece} (hblank : p.isBlank = false) (hcomma : p.isComma = false) :
    ∃ front c, p.render = front ++ [c] ∧ isWhiteSpace c = false ∧ c ≠ ',' := by
  cases p with
  | group delimiter inside =>
      refine ⟨delimiter.opening :: renderAll inside, delimiter.closing, by simp [render_group], ?_⟩
      cases delimiter <;> decide
  | atom a =>
      rw [render_atom]
      cases a with
      | blank c h => cases hblank
      | symbol c h => exact ⟨[], c, rfl, h.1, fun hc => h.2 (by simp [hc])⟩
      | comma => cases hcomma
      | lifetime c h => exact ⟨['\''], c, rfl, h.1, fun hc => h.2 (by simp [hc])⟩
      | text parts => exact ⟨'"' :: parts.flatMap TextPart.render, '"', rfl, by decide⟩
      | character body => exact ⟨'\'' :: body.render, '\'', rfl, by decide⟩

/-- A piece of white space is written as white space. -/
theorem blank_of_isBlank {p : Piece} (h : p.isBlank = true) : Blank p.render := by
  cases p with
  | group delimiter inside => cases h
  | atom a =>
      cases a with
      | blank c hc => simpa [render_atom, Blank] using hc
      | _ => cases h

/-- Pieces without a comma among them do not end in a comma. The induction goes from the end over
the white space there, until a piece decides. -/
theorem last_ne_comma {ps : List Piece} (h : ∀ p ∈ ps, p.isComma = false) :
    ∀ c ∈ (trim (renderAll ps)).getLast?, c ≠ ',' := by
  induction ps using List.reverseRecOn with
  | nil => simp [trim, trimStart, trimEnd, dropEndWhile]
  | append_singleton ps p ih =>
      rw [renderAll_append, renderAll_cons, renderAll_nil, List.append_nil]
      cases hblank : p.isBlank with
      -- White space at the end is trimmed, so the pieces in front of it decide.
      | true =>
          rw [trim_append_blank (blank_of_isBlank hblank)]
          exact ih fun q hq => h q (by simp [hq])
      | false =>
          obtain ⟨front, c, hrender, hdark, hne⟩ := exists_last hblank (h p (by simp))
          rw [hrender, ← List.append_assoc, trim_append_cons hdark]
          simpa [trimEnd, dropEndWhile] using hne

/-- Pieces that are not all white space do not make white space, since one of them has a character
that is none. -/
theorem not_blank_renderAll {ps : List Piece} (h : ∃ p ∈ ps, p.isBlank = false) :
    ¬ Blank (renderAll ps) := by
  obtain ⟨p, hp, hdark⟩ := h
  obtain ⟨before, after, rfl⟩ := List.append_of_mem hp
  intro hblank
  have hpart : Blank p.render := fun c hc => hblank c (by simp [renderAll_append, hc])
  -- A comma is set apart because `exists_last` is about pieces that are none.
  cases hcomma : p.isComma with
  | false =>
      obtain ⟨front, c, hrender, hc, -⟩ := exists_last hdark hcomma
      have hwhite := hpart c (by simp [hrender])
      rw [hc] at hwhite
      cases hwhite
  | true =>
      obtain rfl : p = .atom .comma := by
        cases p with
        | group delimiter inside => cases hcomma
        | atom a =>
            cases a with
            | comma => rfl
            | _ => cases hcomma
      exact absurd (hpart ',' (by simp [render_atom])) (by decide)

end Piece

/-! ### Invocations -/

/-- The text is a path and an exclamation mark with `inside` in round or square brackets behind it,
and maybe white space around the brackets. -/
def HasArguments (inside text : List Char) : Prop :=
  ∃ path left right delimiter, '!' ∉ path ∧ Blank left ∧ Blank right ∧ delimiter ≠ .brace ∧
    text = path ++ '!' ::
      (left ++
        ((Delimiter.opening delimiter :: (inside ++ [Delimiter.closing delimiter])) ++ right))

/-- What is read of the inside of the brackets: no white space around it, and no comma at its end.
-/
def argumentsIn (inside : List Char) : List Char :=
  trimEnd ((dropEnd? [','] (trim inside)).getD (trim inside))

/-- In an invocation the rule reads what stands in the brackets, and takes it for a single argument
if it is not empty and no comma is seen in it. -/
theorem singleArgument?_eq {inside text : List Char} (h : HasArguments inside text) :
    singleArgument? text =
      if (argumentsIn inside).isEmpty || hasTopLevelComma {} (argumentsIn inside) then none
      else some (argumentsIn inside) := by
  obtain ⟨path, left, right, delimiter, hpath, hleft, hright, hdelimiter, rfl⟩ := h
  have hdark : isWhiteSpace delimiter.opening = false ∧ isWhiteSpace delimiter.closing = false := by
    cases delimiter <;> decide
  have htidy : Tidy (delimiter.opening :: (inside ++ [delimiter.closing])) :=
    ⟨by simpa using hdark.1, fun c hc => by
      rw [← List.cons_append, List.getLast?_concat] at hc
      exact Option.some.inj hc ▸ hdark.2⟩
  -- Braces are ruled out by the hypothesis on the brackets.
  have hbetween : ((between? '(' ')' (delimiter.opening :: (inside ++ [delimiter.closing]))).orElse
      fun _ => between? '[' ']' (delimiter.opening :: (inside ++ [delimiter.closing]))) =
        some inside := by
    cases delimiter with
    | brace => exact absurd rfl hdelimiter
    | paren =>
        have hround : between? '(' ')' ('(' :: (inside ++ [')'])) = some inside :=
          between?_eq_some_iff.2 rfl
        exact congrArg (Option.orElse · _) hround
    | bracket => exact between?_eq_some_iff.2 rfl
  simp only [singleArgument?, splitFirst?_append hpath, Option.bind_eq_bind, Option.bind_some,
    htidy.trim_surrounded hleft hright, hbetween]
  rfl

/-- Where no comma is, none is seen, whatever the scan has come past before. -/
theorem hasTopLevelComma_of_not_mem {cs : List Char} (h : ',' ∉ cs) (s : CommaScan) :
    hasTopLevelComma s cs = false := by
  induction cs generalizing s with
  | nil => rw [hasTopLevelComma]
  | cons c cs ih =>
      rw [List.mem_cons, not_or] at h
      rw [CommaScan.hasTopLevelComma_cons, ih h.2, CommaScan.sees, decide_eq_false (Ne.symm h.1)]
      simp

/-- White space is passed over. -/
theorem passes_of_blank {cs : List Char} (h : Blank cs) (depth : Int) :
    (CommaScan.outside depth).Passes cs false :=
  CommaScan.passes_all fun c hc => CommaScan.passes_blank (h c hc) depth

/-- White space around a text hides no comma of it. In front it leaves the scan as it is, and behind
there is no comma. -/
theorem hasTopLevelComma_trim (cs : List Char) :
    hasTopLevelComma {} (trim cs) = hasTopLevelComma {} cs := by
  obtain ⟨left, right, hleft, hright, hcs⟩ := eq_blank_append_trim cs
  have hfront := passes_of_blank hleft 0
  have hback : ',' ∉ right := fun hmem => absurd (hright ',' hmem) (by decide)
  have hwhole := CommaScan.hasTopLevelComma_append {} (left ++ trim cs) right
  rw [← hcs, CommaScan.hasTopLevelComma_append] at hwhole
  rw [hwhole, hasTopLevelComma_of_not_mem hback]
  rw [show hasTopLevelComma {} left = false from hfront.seen,
    show CommaScan.after {} left = {} from hfront.after]
  simp

section
variable {A : List Piece}

/-- The comma behind pieces is seen, also if the white space in front of them is gone. Behind the
pieces no bracket is open, because they close what they open. -/
theorem sees_comma_behind (hA : Piece.anyMisleads A = false) (rest : List Char) :
    hasTopLevelComma {} (trimStart (Piece.renderAll A) ++ ',' :: rest) = true := by
  obtain ⟨left, hleft, hrender⟩ := eq_blank_append_trimStart (Piece.renderAll A)
  have hafter := (CommaScan.passes_renderAll hA (Int.le_refl 0)).after
  rw [hrender, CommaScan.after_append, (passes_of_blank hleft 0).after] at hafter
  rw [CommaScan.hasTopLevelComma_append, CommaScan.hasTopLevelComma_cons,
    show CommaScan.after {} (trimStart (Piece.renderAll A)) = CommaScan.outside 0 from hafter]
  simp [CommaScan.sees, CommaScan.outside]

/-- With something behind it, the comma between two arguments is not taken for one at the end. At
most a comma further right is cut off. -/
theorem exists_argumentsIn_eq (before : List Char) {after : List Char} (h : ¬ Blank after) :
    ∃ rest, argumentsIn (before ++ ',' :: after) = trimStart before ++ ',' :: rest := by
  have hcomma : isWhiteSpace ',' = false := by decide
  have hne : trimEnd after ≠ [] := fun hnil => by
    obtain ⟨blank, hblank, hafter⟩ := eq_trimEnd_append_blank after
    rw [hnil, List.nil_append] at hafter
    exact h (hafter ▸ hblank)
  rw [argumentsIn, trim_append_cons hcomma]
  cases hcut : dropEnd? [','] (trimStart before ++ ',' :: trimEnd after) with
  | none => exact ⟨_, by rw [Option.getD_none, trimEnd_append_cons hcomma]⟩
  | some kept =>
      -- What is cut off stands at the end, and so behind the comma in the middle.
      have hends := dropEnd?_eq_some_iff.1 hcut
      rw [← List.dropLast_concat_getLast hne, ← List.cons_append, ← List.append_assoc] at hends
      rw [Option.getD_some, ← (List.append_inj' hends rfl).1, trimEnd_append_cons hcomma]
      exact ⟨_, rfl⟩

/-- The argument is read without the white space around it and the comma behind it. Only one comma
is taken off there, and the argument itself ends with none. -/
theorem argumentsIn_single (hA : ∀ p ∈ A, p.isComma = false) {comma blank : List Char}
    (hcomma : comma ∈ [[], [',']]) (hblank : Blank blank) :
    argumentsIn (Piece.renderAll A ++ comma ++ blank) = trim (Piece.renderAll A) := by
  rw [argumentsIn, trim_append_blank hblank]
  rcases List.mem_cons.1 hcomma with rfl | hcomma
  · rw [List.append_nil]
    -- Without a comma behind it nothing is cut off, as the argument does not end in one.
    have hnone : dropEnd? [','] (trim (Piece.renderAll A)) = none := by
      refine Option.eq_none_iff_forall_ne_some.2 fun kept hkept => ?_
      refine Piece.last_ne_comma hA ',' ?_ rfl
      rw [dropEnd?_eq_some_iff.1 hkept, List.getLast?_concat]
      rfl
    rw [hnone, Option.getD_none]
    exact (tidyEnd_trimEnd _).trimEnd_eq
  · obtain rfl := List.mem_singleton.1 hcomma
    rw [trim_append_cons (by decide)]
    rw [show trimEnd [] = [] from rfl, dropEnd?_eq_some_iff.2 rfl, Option.getD_some]
    rfl

/-- Take an argument that is made of tokens, where no character literal is a double quote or a
bracket. If another argument follows it, then no single one is found, and no fix is proposed for a
`dbg!` call that is written so. If it is the only one, it is found without the white space around
it, whether or not a comma follows, unless the literal of a comma stands in it outside of
brackets. -/
theorem single_argument_of_pieces (hA : Piece.anyMisleads A = false) :
    (∀ B : List Piece, (∃ p ∈ B, p.isBlank = false) →
      ∀ text, HasArguments (Piece.renderAll A ++ ',' :: Piece.renderAll B) text →
        singleArgument? text = none ∧
        ∀ (file : SourceFile) (tree : SyntaxTree) (d : Diagnostic) (id : NodeId)
          (call : SyntaxNode), tree.nodeAt? d.range .macroCall = some (id, call) →
          (file.text call.range).toList = text → DebugMacro.propose file tree d = []) ∧
    ((∃ p ∈ A, p.isBlank = false) → (∀ p ∈ A, p.isComma = false) →
      ∀ comma ∈ [[], [',']], ∀ blank, Blank blank →
      ∀ text, HasArguments (Piece.renderAll A ++ comma ++ blank) text →
        singleArgument? text =
          if A.any Piece.showsComma then none else some (trim (Piece.renderAll A))) := by
  constructor
  · -- The comma between the two is seen, whatever the second argument is made of.
    intro B hB text htext
    have hnone : singleArgument? text = none := by
      obtain ⟨rest, hrest⟩ := exists_argumentsIn_eq (Piece.renderAll A)
        (Piece.not_blank_renderAll hB)
      rw [singleArgument?_eq htext, hrest, sees_comma_behind hA, Bool.or_true, if_pos rfl]
    refine ⟨hnone, fun file tree d id call hcall hread => ?_⟩
    rw [DebugMacro.propose, hcall]
    simp only [hread, hnone, ite_self]
  · intro hsome hcommas comma hcomma blank hblank text htext
    have hne : trim (Piece.renderAll A) ≠ [] := fun hnil =>
      Piece.not_blank_renderAll hsome (trim_eq_nil_iff.1 hnil)
    -- With one argument, commas can be seen only inside it.
    have hseen := (CommaScan.passes_renderAll hA (Int.le_refl 0)).seen
    rw [singleArgument?_eq htext, argumentsIn_single hcommas hcomma hblank, hasTopLevelComma_trim,
      show hasTopLevelComma {} (Piece.renderAll A) = _ from hseen]
    simp [hne]

end

/-- The argument ` g("\"(,", ',')+'\u{28}' `: quotes, brackets and commas in literals, and commas in
brackets. -/
def crowdedArgument : List Piece :=
  [.atom (.blank ' ' (by decide)), .atom (.symbol 'g' (by decide)),
    .group .paren [.atom (.text [.escape '"', .plain '(' (by decide), .plain ',' (by decide)]),
      .atom .comma, .atom (.blank ' ' (by decide)),
      .atom (.character (.plain ',' (by decide)))],
    .atom (.symbol '+' (by decide)),
    .atom (.character (.code ['2', '8']
      (List.forall_mem_cons.2 ⟨by decide, List.forall_mem_singleton.2 (by decide)⟩))),
    .atom (.blank ' ' (by decide))]

/-- Alone the argument is found, and with another one behind it none is. Its commas stand in a text,
in a character and between brackets. -/
theorem single_argument_of_pieces_crowded :
    let single := "dbg![ g(\"\\\"(,\", ',')+'\\u\x7b28\x7d' , ]".toList
    let several := "dbg!( g(\"\\\"(,\", ',')+'\\u\x7b28\x7d' ,'\"')".toList
    Piece.anyMisleads crowdedArgument = false ∧
      singleArgument? single = some "g(\"\\\"(,\", ',')+'\\u\x7b28\x7d'".toList ∧
      singleArgument? several = none := by
  intro single several
  have hA : Piece.anyMisleads crowdedArgument = false := by decide +kernel
  obtain ⟨hseveral, hsingle⟩ := single_argument_of_pieces hA
  refine ⟨hA, ?_, ?_⟩
  · have hcommas : ∀ p ∈ crowdedArgument, p.isComma = false := by
      simp [crowdedArgument, Piece.isComma]
    have hfound := hsingle ⟨.atom (.symbol 'g' (by decide)), by simp [crowdedArgument], rfl⟩ hcommas
      [','] (by simp) [' '] (by decide) single
      ⟨"dbg".toList, [], [], .bracket, by decide, by decide, by decide, by decide,
        by decide +kernel⟩
    -- The text that was found is trimmed, and no comma shows in it outside of brackets.
    exact hfound.trans (by decide +kernel)
  · exact (hseveral [.atom (.character (.plain '"' (by decide)))] ⟨_, List.mem_cons_self, rfl⟩
      several ⟨"dbg".toList, [], [], .paren, by decide, by decide, by decide, by decide,
        by decide +kernel⟩).1

/-- The literals of quotes, brackets and commas are misread. The first of two arguments hides the
second one if it is the literal of a quote or a bracket, and a `dbg!` call with the two is fixed as
if it had one; and an argument with the literal of a comma is not found. -/
theorem arguments_misread :
    let text := "dbg!('\"', b)"
    let call : TextRange := ⟨0, 12⟩
    (¬ ∀ (A B : List Piece) (text : List Char), (∃ p ∈ A, p.isBlank = false) →
      (∃ p ∈ B, p.isBlank = false) →
      HasArguments (Piece.renderAll A ++ ',' :: Piece.renderAll B) text →
      singleArgument? text = none) ∧
    (¬ ∀ (A : List Piece) (text : List Char), (∃ p ∈ A, p.isBlank = false) →
      (∀ p ∈ A, p.isComma = false) → HasArguments (Piece.renderAll A) text →
      singleArgument? text = some (trim (Piece.renderAll A))) ∧
    (∀ c ∈ structural, singleArgument? ("dbg!('".toList ++ c :: "', b)".toList) =
      some ('\'' :: c :: "', b".toList)) ∧
    DebugMacro.propose (SourceFile.ofPath "src/lib.rs" text "")
        (OrderedTree.arena (.node .file call none [.node .macroCall call (some "dbg") []]))
        { code := "TL002", rule := "no-debug-macro", severity := .warning, range := call,
          message := "" } =
      [{ edits := [⟨call, "'\"', b"⟩], label := "unwrap `dbg!` call", safety := .safe }] := by
  intro text call
  refine ⟨fun h => ?_, fun h => ?_, ?_, by decide +kernel⟩
  · have hnone := h [.atom (.character (.plain '"' (by decide)))]
      [.atom (.blank ' ' (by decide)), .atom (.symbol 'b' (by decide))] text.toList
      ⟨_, List.mem_cons_self, rfl⟩ ⟨_, List.mem_cons_of_mem _ List.mem_cons_self, rfl⟩
      ⟨"dbg".toList, [], [], .paren, by decide, by decide, by decide, by decide, by decide +kernel⟩
    exact absurd hnone (by decide +kernel)
  · have hfound := h [.atom (.character (.plain ',' (by decide)))] "dbg!(',')".toList
      ⟨_, List.mem_cons_self, rfl⟩ (List.forall_mem_singleton.2 rfl)
      ⟨"dbg".toList, [], [], .paren, by decide, by decide, by decide, by decide, by decide +kernel⟩
    exact absurd hfound (by decide +kernel)
  · -- One check for each of the characters.
    have hall : structural.all (fun c =>
        singleArgument? ("dbg!('".toList ++ c :: "', b)".toList) ==
          some ('\'' :: c :: "', b".toList)) = true := by decide +kernel
    exact fun c hc => eq_of_beq (List.all_eq_true.1 hall c hc)

end Arborist.Rules
