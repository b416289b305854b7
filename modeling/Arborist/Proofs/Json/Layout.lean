import Arborist.Json.Printer
import Arborist.Json.Reader

/-!
# `Arborist.Proofs.Json.Layout`: the tokens of a value and the texts that spell them

`tokens` is what a JSON text of a value has to say, and `Spaced` leaves open how it is laid out:
white space may stand before, between and behind the tokens. Both printers keep to it.
`Plain.spaced_render` says so for the text on one line and `Plain.spaced_renderPretty` for the
indented one, by induction on the value with one lemma for a list of items with commas in between.

A value is plain if it holds no number but 64-bit integers. Everything this library writes is.
-/

set_option autoImplicit false

namespace Arborist.Json

/-! ### Tokens and white space -/

mutual

/-- The tokens of a value, in order. -/
def tokens : Json → List (List Char)
  | .null => ["null".toList]
  | .bool true => ["true".toList]
  | .bool false => ["false".toList]
  | .int value => [(toString value).toList]
  | .decimal text => [text.toList]
  | .string value => [(quote value).toList]
  | .array [] => [['['], [']']]
  | .array (first :: rest) => ['['] :: (tokens first ++ elementTokens rest)
  | .object [] => [['\x7b'], ['\x7d']]
  | .object ((name, value) :: rest) =>
    ['\x7b'] :: (quote name).toList :: [':'] :: (tokens value ++ memberTokens rest)

/-- The tokens behind an element: those of the other elements and the closing bracket. -/
def elementTokens : List Json → List (List Char)
  | [] => [[']']]
  | element :: rest => [','] :: (tokens element ++ elementTokens rest)

/-- The tokens behind a member: those of the other members and the closing brace. -/
def memberTokens : List (String × Json) → List (List Char)
  | [] => [['\x7d']]
  | (name, value) :: rest =>
    [','] :: (quote name).toList :: [':'] :: (tokens value ++ memberTokens rest)

end

/-- The tokens of a member. -/
def namedTokens (member : String × Json) : List (List Char) :=
  (quote member.1).toList :: [':'] :: tokens member.2

/-- A quoted string: the escapes of its characters between two quotes. -/
theorem toList_quote (s : String) :
    (quote s).toList = '"' :: (s.toList.flatMap escapeChar ++ ['"']) := by
  rw [quote, String.toList_ofList]

/-- Nothing but white space. -/
def Blanks (cs : List Char) : Prop := ∀ c ∈ cs, isBlank c = true

/-- The text is made of these tokens, with white space around them. -/
inductive Spaced : List (List Char) → List Char → Prop where
  | nil {blanks : List Char} (hblanks : Blanks blanks) : Spaced [] blanks
  | cons {blanks token text : List Char} {tokens : List (List Char)} (hblanks : Blanks blanks)
      (hrest : Spaced tokens text) : Spaced (token :: tokens) (blanks ++ token ++ text)

/-- White space in front does not matter to the reader. -/
theorem skipBlanks_append {blanks : List Char} (h : Blanks blanks) (cs : List Char) :
    skipBlanks (blanks ++ cs) = skipBlanks cs := by
  rw [skipBlanks, List.dropWhile_append_of_pos h, skipBlanks]

namespace Spaced

variable {c : Char} {token text : List Char} {tokens : List (List Char)}

/-- Behind white space comes the first token, and what is behind it spells the other tokens. -/
theorem skip (h : Spaced ((c :: token) :: tokens) text) (hc : isBlank c = false) :
    ∃ rest, skipBlanks text = c :: (token ++ rest) ∧ Spaced tokens rest := by
  cases h with
  | @cons blanks _ rest _ hblanks hrest =>
      refine ⟨rest, ?_, hrest⟩
      rw [List.append_assoc, skipBlanks_append hblanks, skipBlanks, List.cons_append,
        List.dropWhile_cons_of_neg (by simp [hc])]

/-- Without tokens there is only white space. -/
theorem skip_nil (h : Spaced [] text) : skipBlanks text = [] := by
  cases h with
  | nil hblanks =>
      have hskip := skipBlanks_append hblanks []
      rwa [List.append_nil] at hskip

/-- Tokens that are not empty take up the text. So the length of a text bounds the number of its
tokens. -/
theorem length_le (h : Spaced tokens text) (hsome : ∀ token ∈ tokens, token ≠ []) :
    tokens.length ≤ text.length := by
  induction h with
  | nil => exact Nat.zero_le _
  | @cons blanks token text tokens hblanks hrest ih =>
      have hrestLength := ih fun t ht => hsome t (by simp [ht])
      have htoken := List.length_pos_iff.2 (hsome token (by simp))
      simp only [List.length_cons, List.length_append]
      omega

end Spaced

/-! ### Writing -/

/-- White space behind white space is white space. -/
theorem Blanks.append {a b : List Char} (ha : Blanks a) (hb : Blanks b) : Blanks (a ++ b) := by
  intro c hc
  exact (List.mem_append.1 hc).elim (ha c) (hb c)

/-- A line break with its indentation is white space. -/
theorem blanks_newline (depth : Nat) : Blanks (newline depth).toList := by
  intro c hc
  rw [newline, String.toList_ofList, List.mem_cons, List.mem_replicate] at hc
  rcases hc with rfl | ⟨-, rfl⟩ <;> rfl

/-- Each element behind the first has a comma in front. -/
theorem elementTokens_eq (elements : List Json) :
    elementTokens elements = elements.flatMap (fun j => [','] :: tokens j) ++ [[']']] := by
  induction elements with
  | nil => rw [elementTokens]; rfl
  | cons first others ih => simp [elementTokens, ih]

/-- So has each member. -/
theorem memberTokens_eq (members : List (String × Json)) :
    memberTokens members =
      members.flatMap (fun m => [','] :: namedTokens m) ++ [['\x7d']] := by
  induction members with
  | nil => rw [memberTokens]; rfl
  | cons first others ih => simp [memberTokens, namedTokens, ih]

namespace Spaced

variable {text rest : List Char} {ts more : List (List Char)}

/-- White space in front of a text changes nothing about its tokens. -/
theorem blanks_append {blanks : List Char} (hblanks : Blanks blanks) (h : Spaced ts text) :
    Spaced ts (blanks ++ text) := by
  cases h with
  | nil hrest => exact .nil (hblanks.append hrest)
  | cons hbefore hrest =>
      rw [← List.append_assoc, ← List.append_assoc]
      exact .cons (hblanks.append hbefore) hrest

/-- The texts of two lists of tokens one after the other. -/
theorem append (h : Spaced ts text) (hrest : Spaced more rest) :
    Spaced (ts ++ more) (text ++ rest) := by
  induction h with
  | nil hblanks => exact hrest.blanks_append hblanks
  | cons hblanks _ ih =>
      rw [List.append_assoc]
      exact .cons hblanks ih

/-- A token by itself. -/
theorem single (token : List Char) : Spaced [token] token := by
  have h := @Spaced.cons [] token [] [] (by simp [Blanks]) (.nil (by simp [Blanks]))
  simpa using h

/-- Items with commas between them, if each item is written with its own tokens. Both kinds of list
and both printers use this. -/
theorem commas {α : Type} {itemTokens : α → List (List Char)} {write : α → String}
    {first : α} {others : List α}
    (h : ∀ a ∈ first :: others, Spaced (itemTokens a) (write a).toList) :
    Spaced (itemTokens first ++ others.flatMap fun a => [','] :: itemTokens a)
      (",".intercalate ((first :: others).map write)).toList := by
  induction others generalizing first with
  | nil => simpa using h first
  | cons second others ih =>
      rw [List.forall_mem_cons] at h
      rw [List.map_cons, List.map_cons, String.intercalate_cons_cons, String.toList_append,
        String.toList_append, List.append_assoc, List.flatMap_cons]
      exact h.1.append ((single [',']).append (ih h.2))

/-- An array whose elements are written one by one, closed by a bracket. How they are written is
left open, and white space may stand before the bracket. -/
theorem array {write : Json → String} {close : String} {elements : List Json}
    (h : ∀ j ∈ elements, Spaced (tokens j) (write j).toList)
    (hclose : Spaced [[']']] close.toList) :
    Spaced (tokens (.array elements))
      ("[" ++ ",".intercalate (elements.map write) ++ close).toList := by
  rw [String.toList_append, String.toList_append, List.append_assoc]
  cases elements with
  | nil => exact (single ['[']).append hclose
  | cons first others =>
      rw [tokens, elementTokens_eq, ← List.append_assoc]
      exact (single ['[']).append ((commas h).append hclose)

/-- An object whose members are written one by one, closed by a brace. How much white space is
between them is up to the way a member is written. -/
theorem object {write : String × Json → String} {close : String} {members : List (String × Json)}
    (h : ∀ m ∈ members, Spaced (namedTokens m) (write m).toList)
    (hclose : Spaced [['\x7d']] close.toList) :
    Spaced (tokens (.object members))
      ("\x7b" ++ ",".intercalate (members.map write) ++ close).toList := by
  rw [String.toList_append, String.toList_append, List.append_assoc]
  cases members with
  | nil => exact (single ['\x7b']).append hclose
  | cons first others =>
      rw [tokens, memberTokens_eq, ← List.append_assoc]
      exact (single ['\x7b']).append ((commas h).append hclose)

/-- A member with its colon, which may have white space behind it. -/
theorem member {m : String × Json} {colon value : String} (hcolon : Spaced [[':']] colon.toList)
    (hvalue : Spaced (tokens m.2) value.toList) :
    Spaced (namedTokens m) (quote m.1 ++ colon ++ value).toList := by
  rw [String.toList_append, String.toList_append, List.append_assoc]
  exact (single (quote m.1).toList).append (hcolon.append hvalue)

end Spaced

/-- The printer goes through elements one by one. -/
theorem renderElements_eq (elements : List Json) :
    renderElements elements = elements.map render := by
  induction elements with
  | nil => rfl
  | cons first others ih => rw [renderElements, ih, List.map_cons]

/-- It does so with members, each behind its name. -/
theorem renderMembers_eq (members : List (String × Json)) :
    renderMembers members = members.map fun m => quote m.1 ++ ":" ++ render m.2 := by
  induction members with
  | nil => rfl
  | cons first others ih => rw [renderMembers, ih, List.map_cons]

/-- Indented elements start on lines of their own. -/
theorem prettyElements_eq (depth : Nat) (elements : List Json) :
    prettyElements depth elements =
      elements.map fun j => newline depth ++ renderPrettyAt depth j := by
  induction elements with
  | nil => rfl
  | cons first others ih => rw [prettyElements, ih, List.map_cons]

/-- So do indented members. -/
theorem prettyMembers_eq (depth : Nat) (members : List (String × Json)) :
    prettyMembers depth members =
      members.map fun m => newline depth ++ quote m.1 ++ ": " ++ renderPrettyAt depth m.2 := by
  induction members with
  | nil => rfl
  | cons first others ih => rw [prettyMembers, ih, List.map_cons]

/-! ### The printers -/

/-- A value that is written with no number but 64-bit integers. -/
inductive Plain : Json → Prop where
  | null : Plain .null
  | bool (value : Bool) : Plain (.bool value)
  | nat {n : Nat} (h : n < Nat.pow 2 64) : Plain (.int n)
  | neg {n : Nat} (h : n < Nat.pow 2 63) : Plain (.int (.negSucc n))
  | string (value : String) : Plain (.string value)
  | array {elements : List Json} (h : ∀ j ∈ elements, Plain j) : Plain (.array elements)
  | object {members : List (String × Json)} (h : ∀ m ∈ members, Plain m.2) :
      Plain (.object members)

section

variable {α : Type} {encode : α → Json}

/-- A list is plain if its values are. -/
theorem Plain.ofList {values : List α} (h : ∀ a ∈ values, (encode a).Plain) :
    (ofList encode values).Plain :=
  .array (by simpa using h)

/-- A value that may be missing is plain if it is when it is there; otherwise it is `null`. -/
theorem Plain.ofOption {value : Option α} (h : ∀ a ∈ value, (encode a).Plain) :
    (ofOption encode value).Plain := by
  cases value with
  | none => exact .null
  | some a => exact h a rfl

end

/-- The text on one line has the tokens of its value, without any white space. The induction is on
the value. -/
theorem Plain.spaced_render {j : Json} (h : j.Plain) : Spaced (tokens j) (render j).toList := by
  induction h with
  | null => exact .single _
  | bool value => cases value <;> exact .single _
  | nat => rw [tokens, render]; exact .single _
  | neg => rw [tokens, render]; exact .single _
  | string => rw [tokens, render]; exact .single _
  | array _ ih =>
      rw [render, renderElements_eq]
      exact .array ih (.single [']'])
  | object _ ih =>
      rw [render, renderMembers_eq]
      exact .object (fun m hm => .member (.single [':']) (ih m hm)) (.single ['\x7d'])

/-- The indented text has the same tokens, at any depth. The line breaks stand before elements and
before the closing bracket, where white space is allowed. -/
theorem Plain.spaced_renderPrettyAt {j : Json} (h : j.Plain) (depth : Nat) :
    Spaced (tokens j) (renderPrettyAt depth j).toList := by
  have hcolon : Spaced [[':']] ": ".toList :=
    (Spaced.single [':']).append (@Spaced.nil [' '] (by simp [Blanks, isBlank]))
  induction h generalizing depth with
  | null => rw [tokens, renderPrettyAt]; exact .single _
  | bool value => cases value <;> (rw [tokens, renderPrettyAt]; exact .single _)
  | nat => rw [tokens, renderPrettyAt]; exact .single _
  | neg => rw [tokens, renderPrettyAt]; exact .single _
  | string => rw [tokens, renderPrettyAt]; exact .single _
  -- An empty array is written without a line break, any other with one before each element.
  | @array elements _ ih =>
      cases elements with
      | nil =>
          rw [tokens, renderPrettyAt]
          exact (Spaced.single ['[']).append (.single [']'])
      | cons first others =>
          rw [renderPrettyAt, prettyElements_eq, String.append_assoc]
          refine .array (fun j hj => ?_) ?_
          · rw [String.toList_append]
            exact (ih j hj (depth + 1)).blanks_append (blanks_newline _)
          · rw [String.toList_append]
            exact (Spaced.single [']']).blanks_append (blanks_newline _)
  | @object members _ ih =>
      cases members with
      | nil =>
          rw [tokens, renderPrettyAt]
          exact (Spaced.single ['\x7b']).append (.single ['\x7d'])
      | cons first others =>
          rw [renderPrettyAt, prettyMembers_eq, String.append_assoc]
          refine .object (fun m hm => ?_) ?_
          · rw [String.append_assoc, String.append_assoc, String.toList_append,
              ← String.append_assoc]
            exact (Spaced.member hcolon (ih m hm (depth + 1))).blanks_append (blanks_newline _)
          · rw [String.toList_append]
            exact (Spaced.single ['\x7d']).blanks_append (blanks_newline _)

/-- An indented text starts at depth 0. -/
theorem Plain.spaced_renderPretty {j : Json} (h : j.Plain) :
    Spaced (tokens j) (renderPretty j).toList :=
  h.spaced_renderPrettyAt 0

end Arborist.Json
