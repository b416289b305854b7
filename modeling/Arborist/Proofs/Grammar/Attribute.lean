import Arborist.Grammar.Attribute
import Arborist.Proofs.Grammar.Keeps

/-!
# `Arborist.Proofs.Grammar.Attribute`: attributes, visibilities and blocks keep to the text

The brackets of an attribute may be those of a documentation comment, so nothing is known of the
tokens inside. Nothing has to be: an attribute is a node without children that is no literal. What
matters is that the tokens behind the brackets are those of the text again (`Reads.behind`).
-/

set_option autoImplicit false

namespace Arborist.Grammar

open Source (Position Span Token Reads)
open Grammar.Parser

variable {text : List Char} {G : Productions}

instance : Faithful SimplePath := ⟨fun _ _ => True⟩

/-- The words of a path with colons between them. -/
theorem simpleSegments_keeps (read : List String) : Keeps text (simpleSegments read) := by
  refine .loop (faithful_strings read) fun read _ => .seq .ahead fun _ => .seq .ahead fun _ => ?_
  refine .ite .fail_bind (.seq .anyWord fun w => ?_)
  exact .ifMarks (by decide) (.pure (faithful_strings _)) (.pure (faithful_strings _))

/-- A path as it stands in attributes and visibilities: words only. -/
theorem simplePath_keeps : Keeps text simplePath :=
  .seq (.marksIf (by decide)) fun _ => .seq (simpleSegments_keeps []) fun _ => .pure trivial

/-! ### Attributes -/

/-- Behind a token that is no mark, wherever it stands, the tokens are those of the text. Tokens
that are not in the text come from documentation comments, and the last one of a comment is a
group. -/
theorem Reads.behind {n k : Nat} {t : Token} {ts rest : List Token} (h : Reads text n ts)
    (hts : ts.drop k = t :: rest) (ht : ∀ char joint span, t ≠ .mark char joint span) :
    Reads text 0 rest := by
  induction h generalizing k with
  | nil => simp at hts
  | single _ _ _ behind ih =>
      cases k with
      | zero =>
          cases hts
          exact behind.weaken (Nat.zero_le _)
      | succ k => exact ih hts
  | group _ _ behind _ ih =>
      cases k with
      | zero =>
          cases hts
          exact behind.weaken (Nat.zero_le _)
      | succ k => exact ih hts
  -- A documentation comment is two or three tokens. All but the last are marks, which `t` is not.
  | outerDoc _ behind ih =>
      match k, hts with
      | 0, hts =>
          cases hts
          exact absurd rfl (ht _ _ _)
      | 1, hts =>
          cases hts
          exact behind.weaken (Nat.zero_le _)
      | k + 2, hts => exact ih hts
  | innerDoc _ behind ih =>
      match k, hts with
      | 0, hts =>
          cases hts
          exact absurd rfl (ht _ _ _)
      | 1, hts =>
          cases hts
          exact absurd rfl (ht _ _ _)
      | 2, hts =>
          cases hts
          exact behind.weaken (Nat.zero_le _)
      | k + 3, hts => exact ih hts

/-- The brackets of an attribute behind any number of tokens, whatever is inside them. What is
inside decides on the kind and the name of the node, which has no children. -/
theorem attributeBrackets_keepsFrom {i : Input} (hi : FaithfulTo text i) (k : Nat)
    (start : Position) : KeepsFrom text (i.skip k) (attributeBrackets G start) := by
  have hbrackets :
      KeepsFrom text (i.skip k) (group .bracket (withTokens (attributeContent G))) := by
    intro a j h
    rw [group] at h
    split at h
    · next d inside span rest hrest =>
        rw [Input.rest_skip] at hrest
        -- The tokens that are skipped may not be in the text, but those behind the brackets are.
        have hbehind : Reads text 0 rest := Reads.behind hi hrest (by simp)
        split at h
        · split at h
          · cases h
          · cases h
            exact ⟨⟨trivial, faithful_tokens _⟩, hbehind⟩
        · cases h
    · cases h
  refine hbrackets.bind fun _ _ => .seq (.since start) fun span => ?_
  exact .ite (.pure (faithful_leaf (by decide))) (.pure (faithful_leaf (by decide)))

/-- Attributes in front of what they belong to. They start with a hash sign, so the rules for marks
do not apply. -/
theorem outerAttributes_keeps : Keeps text (outerAttributes G) := by
  refine .whileAhead (.seq .here fun start => ?_)
  -- The hash sign is read whatever it belongs to.
  intro i hi a j h
  obtain ⟨u, k, hmark, hrest⟩ := bind_eq_ok h
  obtain rfl : k = i.skip 1 := by
    obtain ⟨found, l, hfound, hmark⟩ := bind_eq_ok hmark
    change (if atMarks "#" i.rest then _ else _ : Parser Bool) i = _ at hfound
    split at hfound
    · cases hfound
      cases hmark
      rfl
    · cases hfound
      cases hmark
  exact (attributeBrackets_keepsFrom hi 1 start).bind
    (fun o ho => .pure (faithful_singleton ho)) a j hrest

/-- Attributes inside of what they belong to, with a hash sign and a bang in front. -/
theorem innerAttributes_keeps : Keeps text (innerAttributes G) := by
  refine .whileAhead (.seq .here fun start => ?_)
  intro i hi a j h
  exact (attributeBrackets_keepsFrom hi 2 start).bind
    (fun o ho => .pure (faithful_singleton ho)) a j h

/-! ### Blocks and visibilities -/

/-- A block is a node around its statements. -/
theorem block_keeps (hG : G.Keep text) : Keeps text (block G) := by
  refine .seq .here fun start => .bind (.group hG.statements) fun inside hinside => ?_
  exact .seq (.since start) fun _ => .pure (faithful_node (by decide) hinside)

/-- A block with attributes at its start, which are given back apart from it. -/
theorem blockWithAttributes_keeps (hG : G.Keep text) : Keeps text (blockWithAttributes G) := by
  refine .seq .here fun start => .bind (.group ?_) fun inside hinside => ?_
  · refine .bind innerAttributes_keeps fun attributes hattributes => ?_
    exact .bind hG.statements fun inside hinside => .pure ⟨hattributes, hinside⟩
  · exact .seq (.since start) fun _ => .pure ⟨hinside.1, faithful_node (by decide) hinside.2⟩

/-- What may stand in parentheses behind `pub`. Parentheses with anything else in them are left
alone; they belong to what comes next. -/
theorem restriction_keeps : Keeps text restriction := by
  refine .look fun i hi => ?_
  split
  · next inside span rest hrest =>
      have hbare : Bare 1 i.rest := .of_cons hrest (by simp)
      have hpath : Keeps text (group .paren do word "in"; let _ ← simplePath) :=
        .group (.seq (.word "in") fun _ => .seq simplePath_keeps fun _ => .pure trivial)
      refine .ite (fun _ => .ite (fun _ => .skip hi hbare) fun _ => .pure hi trivial) fun _ => ?_
      exact .ite (fun _ => hpath i hi) fun _ => .pure hi trivial
  · exact .pure hi trivial

/-- A visibility is a node without children, or nothing at all. Its words are kept as the name of
the node, so nothing in it is asked to stand in the text. -/
theorem visibility_keeps : Keeps text visibility := by
  refine .seq .here fun start => .look fun i hi => .ite (fun hahead => ?_) fun _ => ?_
  · have hwords : KeepsFrom text i (withTokens do skip 1; restriction) := by
      refine .ahead (KeepsFrom.bind ?_ fun _ _ => .seq .ahead fun _ =>
        .pure ⟨trivial, faithful_tokens _⟩)
      exact (KeepsFrom.skip hi (.of_atWord hahead)).bind fun _ _ => restriction_keeps
    refine hwords.bind fun _ _ => .seq (.since start) fun _ => .pure ?_
    exact faithful_singleton (faithful_leaf (by decide))
  · exact .pure hi faithful_nil

end Arborist.Grammar
