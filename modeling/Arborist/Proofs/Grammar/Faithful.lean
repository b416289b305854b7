import Arborist.Grammar.Parser
import Arborist.Proofs.Source.Tokens

/-!
# `Arborist.Proofs.Grammar.Faithful`: results that say what stands in the text

A result of the grammar is faithful to a text (`FaithfulTo`) if every literal in it stands in the
text where its span says so. Literals are the only nodes that are asked for anything, so a value
without outlines is faithful to every text, and a phrase is faithful if the outlines in it are.
-/

set_option autoImplicit false

namespace Arborist.Grammar

open Source (Position Span Token StandsAt Reads)

/-! ### Faithful results -/

/-- A literal of this kind and name stands in the text at the span. The name of a number with a
minus sign has a blank behind the sign, whatever stands there in the text. -/
inductive Denotes (text : List Char) : NodeKind → Span → String → Prop where
  | plain {kind : NodeKind} {n : Nat} {span : Span} {name : String}
      (stands : StandsAt text n name.toList span) : Denotes text kind span name
  | negative {n m : Nat} {minus span : Span} {number : String}
      (sign : StandsAt text n ['-'] minus) (le : n + 1 ≤ m)
      (stands : StandsAt text m number.toList span) :
      Denotes text .numberLiteral (minus.to span) ("- " ++ number)

/-- Every literal in the outline is a leaf that stands in the text. -/
inductive Outline.Faithful (text : List Char) : Outline → Prop where
  | literal {kind : NodeKind} {span : Span} {name : String} (h : Denotes text kind span name) :
      Faithful text (.node kind span (some name) [])
  | node {kind : NodeKind} {span : Span} {name : Option String} {inside : List Outline}
      (h : kind.category ≠ .literal) (inner : ∀ o ∈ inside, Faithful text o) :
      Faithful text (.node kind span name inside)

/-- What it means for a value of the grammar to be faithful to a text. -/
class Faithful (α : Type) where
  FaithfulTo : List Char → α → Prop

export Faithful (FaithfulTo)

instance : Faithful Outline := ⟨Outline.Faithful⟩

/-- The tokens ahead were read from the text. -/
instance : Faithful Input := ⟨fun text i => Reads text 0 i.rest⟩

/-! Values without outlines. -/

instance : Faithful Unit := ⟨fun _ _ => True⟩
instance : Faithful Bool := ⟨fun _ _ => True⟩
instance : Faithful String := ⟨fun _ _ => True⟩
instance : Faithful Position := ⟨fun _ _ => True⟩
instance : Faithful Span := ⟨fun _ _ => True⟩
instance : Faithful Token := ⟨fun _ _ => True⟩

section Containers

variable {α β : Type} [Faithful α] [Faithful β]

instance : Faithful (List α) := ⟨fun text as => ∀ a ∈ as, FaithfulTo text a⟩
instance : Faithful (Option α) := ⟨fun text a? => ∀ a, a? = some a → FaithfulTo text a⟩
instance : Faithful (α × β) := ⟨fun text ab => FaithfulTo text ab.1 ∧ FaithfulTo text ab.2⟩

instance : Faithful (Parser.Step α β) := ⟨fun text step => match step with
  | .more state => FaithfulTo text state
  | .done result => FaithfulTo text result⟩

variable {text : List Char}

/-- The empty list is faithful to every text. -/
@[simp] theorem faithful_nil : FaithfulTo text ([] : List α) := by
  intro a ha
  cases ha

/-- A list is faithful if its first element and the others are. -/
@[simp] theorem faithful_cons {a : α} {as : List α} :
    FaithfulTo text (a :: as) ↔ FaithfulTo text a ∧ FaithfulTo text as :=
  List.forall_mem_cons

/-- A single faithful element makes a faithful list. -/
theorem faithful_singleton {a : α} (h : FaithfulTo text a) : FaithfulTo text [a] :=
  faithful_cons.2 ⟨h, faithful_nil⟩

/-- Two lists together are faithful if both are. -/
@[simp] theorem faithful_append {as bs : List α} :
    FaithfulTo text (as ++ bs) ↔ FaithfulTo text as ∧ FaithfulTo text bs :=
  List.forall_mem_append

/-- So is a value that is missing. -/
@[simp] theorem faithful_none : FaithfulTo text (none : Option α) := by
  intro a ha
  cases ha

/-- A value that is there counts as it is. -/
@[simp] theorem faithful_some {a : α} : FaithfulTo text (some a) ↔ FaithfulTo text a :=
  ⟨fun h => h a rfl, fun h _ hb => Option.some.inj hb ▸ h⟩

/-- Outlines that are missing count as none. -/
theorem faithful_getD {as? : Option (List α)} (h : FaithfulTo text as?) :
    FaithfulTo text (as?.getD []) := by
  cases as? with
  | none => exact faithful_nil
  | some as => exact h as rfl

/-- A choice between faithful values is faithful. -/
theorem faithful_ite {c : Prop} [Decidable c] {a a' : α} (h : FaithfulTo text a)
    (h' : FaithfulTo text a') : FaithfulTo text (if c then a else a') := by
  split
  · exact h
  · exact h'

/-- A pair is faithful if both of its parts are. -/
@[simp] theorem faithful_mk {a : α} {b : β} :
    FaithfulTo text (a, b) ↔ FaithfulTo text a ∧ FaithfulTo text b := Iff.rfl

end Containers

section Phrases

variable {text : List Char}

/-- Tokens are no outlines, and nothing is asked of them. -/
theorem faithful_tokens (ts : List Token) : FaithfulTo text ts := fun _ _ => trivial

/-- Nor of texts. -/
theorem faithful_strings (ss : List String) : FaithfulTo text ss := fun _ _ => trivial

/-- A node that is no literal only passes on what is inside it. -/
theorem faithful_node {kind : NodeKind} (hkind : kind.category ≠ .literal) {span : Span}
    {name : Option String} {inside : List Outline} (h : FaithfulTo text inside) :
    FaithfulTo text (Outline.node kind span name inside) := Outline.Faithful.node hkind h

/-- A node without children that is no literal is faithful to every text. -/
theorem faithful_leaf {kind : NodeKind} (hkind : kind.category ≠ .literal) {span : Span}
    {name : Option String} : FaithfulTo text (Outline.leaf kind span name) :=
  faithful_node hkind faithful_nil

/-- The node around an expression is no literal. -/
def Frame.Plain (frame : Option Frame) : Prop := ∀ f, frame = some f → f.kind.category ≠ .literal

/-- The parts of the expression are faithful, and no frame is a literal. -/
def Expr.Faithful (text : List Char) : Expr → Prop
  | .base _ _ attributes frame inside =>
    Frame.Plain frame ∧ FaithfulTo text attributes ∧ FaithfulTo text inside
  | .operator _ _ frame left after =>
    Frame.Plain frame ∧ left.Faithful text ∧ FaithfulTo text after

instance : Faithful Expr := ⟨Expr.Faithful⟩
instance : Faithful TypePhrase := ⟨fun text type => FaithfulTo text type.outlines⟩
instance : Faithful Pattern := ⟨fun text pattern => FaithfulTo text pattern.body⟩
instance : Faithful Bound := ⟨fun text bound => FaithfulTo text bound.outlines⟩

/-- No node, no literal. -/
theorem Frame.plain_none : Frame.Plain none := by
  intro f hf
  cases hf

/-- The node around an expression is of a kind that is no literal. -/
theorem Frame.plain_some {f : Frame} (h : f.kind.category ≠ .literal) : Frame.Plain (some f) := by
  intro g hg
  cases hg
  exact h

/-- An expression without a node of its own. -/
theorem faithful_base_none {shape : Shape} {span : Span} {attributes inside : List Outline}
    (hattributes : FaithfulTo text attributes) (hinside : FaithfulTo text inside) :
    FaithfulTo text (Expr.base shape span attributes none inside) :=
  ⟨Frame.plain_none, hattributes, hinside⟩

/-- An expression in a node. -/
theorem faithful_base_some {shape : Shape} {span : Span} {attributes inside : List Outline}
    {kind : NodeKind} {name : Option String} (hkind : kind.category ≠ .literal)
    (hattributes : FaithfulTo text attributes) (hinside : FaithfulTo text inside) :
    FaithfulTo text (Expr.base shape span attributes (some ⟨kind, name⟩) inside) :=
  ⟨Frame.plain_some hkind, hattributes, hinside⟩

/-- A node put around faithful outlines, or none. -/
theorem Expr.faithful_framed {frame : Option Frame} (hframe : Frame.Plain frame) {span : Span}
    {inside : List Outline} (h : FaithfulTo text inside) :
    FaithfulTo text (framed frame span inside) := by
  cases frame with
  | none => exact h
  | some f => exact faithful_singleton (faithful_node (hframe f rfl) h)

/-- What a faithful expression contributes is faithful. The induction is over the operators; at the
bottom, the shape decides what is contributed at all. -/
theorem Expr.faithful_outlines {e : Expr} (h : FaithfulTo text e) : FaithfulTo text e.outlines := by
  induction e with
  | base shape span attributes frame inside =>
      obtain ⟨hframe, hattributes, hinside⟩ := h
      have hparts : FaithfulTo text (framed frame span (attributes ++ inside)) :=
        faithful_framed hframe (faithful_append.2 ⟨hattributes, hinside⟩)
      cases shape with
      -- Only two shapes do not contribute what is inside.
      | silent => exact faithful_nil
      | invocation name braced => exact faithful_singleton (faithful_leaf (by decide))
      | blockLike => exact hparts
      | range => exact hparts
      | path name => exact hparts
      | comparison => exact hparts
      | other => exact hparts
  | operator shape stop frame left after ih =>
      obtain ⟨hframe, hleft, hafter⟩ := h
      exact faithful_framed hframe (faithful_append.2 ⟨ih hleft, hafter⟩)

/-- Attributes in front of an expression are put inside of it, before its own. An operator takes
none of them. -/
theorem Expr.faithful_attach {e : Expr} (h : FaithfulTo text e) {attributes : List Outline}
    (hattributes : FaithfulTo text attributes) (start : Position) :
    FaithfulTo text (e.attach attributes start) := by
  cases e with
  | base shape span own frame inside =>
      obtain ⟨hframe, hown, hinside⟩ := h
      exact ⟨hframe, faithful_append.2 ⟨hattributes, hown⟩, hinside⟩
  | operator shape stop frame left after => exact h

/-- The same for attributes that belong to the first operand. The induction goes down the left
operands until it is found. -/
theorem Expr.faithful_attachLeftmost {e : Expr} (h : FaithfulTo text e) {attributes : List Outline}
    (hattributes : FaithfulTo text attributes) (start : Position) :
    FaithfulTo text (e.attachLeftmost attributes start) := by
  fun_induction attachLeftmost attributes start e with
  | case1 => exact h
  | case2 => exact h
  | case3 shape span own frame inside hshape hne =>
      obtain ⟨hframe, hown, hinside⟩ := h
      exact ⟨hframe, faithful_append.2 ⟨hattributes, hown⟩, hinside⟩
  | case4 shape stop frame left after ih =>
      obtain ⟨hframe, hleft, hafter⟩ := h
      exact ⟨hframe, ih hleft, hafter⟩

/-- A pattern contributes what the expression contributes that it is read as. -/
theorem Pattern.faithful_outlines {p : Pattern} (h : FaithfulTo text p) :
    FaithfulTo text p.outlines := Expr.faithful_outlines h

end Phrases

end Arborist.Grammar
