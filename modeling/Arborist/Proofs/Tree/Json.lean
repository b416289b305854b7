import Arborist.Proofs.Json.Reading
import Arborist.Tree.Json

/-!
# `Arborist.Proofs.Tree.Json`: a tree survives its JSON text

`SyntaxTree.json_round_trip`: a tree written as JSON, in whatever layout, is read back as the same
tree. Nothing is asked of its links, since reading does not check them: they may be missing, shared
or circular, and ranges may lie outside every source. Only the size of the numbers matters: offsets
have 64 bits and positions 32, which is `Fits`.

The members of a record are found by name (`SyntaxNode.fields?_toJson`), so the optional name at
the end is the only one that can be absent.
-/

set_option autoImplicit false

namespace Arborist

namespace TextRange

/-- Offsets of 64 bits, in either order. -/
def Fits (r : TextRange) : Prop := r.start < Nat.pow 2 64 ∧ r.stop < Nat.pow 2 64

/-- A written range is read back. -/
theorem ofJson?_toJson {r : TextRange} (h : r.Fits) : ofJson? r.toJson = some r := by
  simp [ofJson?, toJson, Json.fields?, Json.field?, Json.valuesOf, Json.asNat?,
    Json.asNatBelow?_ofNat h.1, Json.asNatBelow?_ofNat h.2]

/-- A range is written with numbers that can be read. -/
theorem Fits.plain_toJson {r : TextRange} (h : r.Fits) : r.toJson.Plain :=
  .object (by simpa [Json.ofNat] using ⟨.nat h.1, .nat h.2⟩)

end TextRange

/-- Every kind has a name of its own, by which it is found. -/
theorem NodeKind.ofName?_name (kind : NodeKind) : ofName? kind.name = some kind := by
  cases kind <;> rfl

/-- A written kind is read back. -/
theorem NodeKind.ofJson?_toJson (kind : NodeKind) : ofJson? kind.toJson = some kind :=
  ofName?_name kind

namespace SyntaxNode

/-- Offsets of 64 bits and links of 32 bits, whether or not they lead anywhere. -/
def Fits (node : SyntaxNode) : Prop :=
  node.range.Fits ∧ (∀ id ∈ node.parent, id < Nat.pow 2 32) ∧
    ∀ id ∈ node.children, id < Nat.pow 2 32

instance (node : SyntaxNode) : Decidable node.Fits :=
  inferInstanceAs (Decidable ((_ ∧ _) ∧ (∀ id ∈ node.parent, _) ∧ ∀ id ∈ node.children, _))

/-- The members of a written node. Only the name may be absent; a parent that is missing is written
as null. -/
theorem fields?_toJson (node : SyntaxNode) :
    node.toJson.fields? ["kind", "range", "parent", "children", "name"] =
      some [some node.kind.toJson, some node.range.toJson, some (.ofOption .ofNat node.parent),
        some (.ofList .ofNat node.children), node.name.map .string] := by
  obtain ⟨kind, range, parent, children, name⟩ := node
  cases name <;> simp [toJson, Json.fields?, Json.field?, Json.valuesOf]

/-- A written node is read back. Each member is read by itself, and a name that was left out by its
default. -/
theorem ofJson?_toJson {node : SyntaxNode} (h : node.Fits) : ofJson? node.toJson = some node := by
  obtain ⟨hrange, hparent, hchildren⟩ := h
  have hparentRead : Json.asOption? idOfJson? (.ofOption .ofNat node.parent) = some node.parent :=
    Json.asOption?_ofOption (by simp [Json.ofNat])
      fun id hid => Json.asNatBelow?_ofNat (hparent id hid)
  have hchildrenRead : Json.asListOf? idOfJson? (.ofList .ofNat node.children) =
      some node.children :=
    Json.asListOf?_ofList fun id hid => Json.asNatBelow?_ofNat (hchildren id hid)
  have hnameRead : Json.withDefault none (Json.asOption? Json.asString?)
      (node.name.map .string) = some node.name := by
    cases node.name <;> rfl
  simp [ofJson?, fields?_toJson, NodeKind.ofJson?_toJson, TextRange.ofJson?_toJson hrange,
    hparentRead, hchildrenRead, hnameRead]

/-- A node is written with numbers that can be read; positions are smaller still than offsets may
be. -/
theorem Fits.plain_toJson {node : SyntaxNode} (h : node.Fits) : node.toJson.Plain := by
  obtain ⟨hrange, hparent, hchildren⟩ := h
  have hid : ∀ id < Nat.pow 2 32, (Json.ofNat id).Plain :=
    fun id h => .nat (Nat.lt_trans h (by decide))
  have hparentPlain := Json.Plain.ofOption fun id h => hid id (hparent id h)
  have hchildrenPlain := Json.Plain.ofList fun id h => hid id (hchildren id h)
  refine .object ?_
  -- The four members that are always there, then the name.
  simp only [List.forall_mem_append, List.forall_mem_cons]
  refine ⟨⟨.string _, hrange.plain_toJson, hparentPlain, hchildrenPlain, by simp⟩, ?_⟩
  cases node.name with
  | none => simp
  | some name => simpa using .string name

end SyntaxNode

namespace SyntaxTree

/-- Every node fits, also one that no other leads to. -/
def Fits (tree : SyntaxTree) : Prop := ∀ node ∈ tree.nodes, node.Fits

instance (tree : SyntaxTree) : Decidable tree.Fits :=
  inferInstanceAs (Decidable (∀ node ∈ tree.nodes, node.Fits))

/-- A written tree is read back node by node, in whatever way its nodes are linked. -/
theorem ofJson?_toJson {tree : SyntaxTree} (h : tree.Fits) : ofJson? tree.toJson = some tree := by
  have hnodes : Json.asListOf? SyntaxNode.ofJson? (.ofList SyntaxNode.toJson tree.nodes.toList) =
      some tree.nodes.toList :=
    Json.asListOf?_ofList fun node hnode =>
      SyntaxNode.ofJson?_toJson (h node (by simpa using hnode))
  simp [ofJson?, toJson, Json.fields?, Json.field?, Json.valuesOf, hnodes]

/-- A tree is written with numbers that can be read. -/
theorem Fits.plain_toJson {tree : SyntaxTree} (h : tree.Fits) : tree.toJson.Plain := by
  refine .object ?_
  rw [List.forall_mem_singleton]
  exact .ofList fun node hnode => (h node (by simpa using hnode)).plain_toJson

/-- A text with the tokens of the tree is read as the tree, whatever white space is between them. -/
theorem parse?_of_spaced {tree : SyntaxTree} (h : tree.Fits) {text : String}
    (htext : Json.Spaced tree.toJson.tokens text.toList) : parse? text = some tree := by
  rw [parse?, h.plain_toJson.read?_eq htext, Option.bind_some, ofJson?_toJson h]

/-- Every arena is read back from its JSON text: from the one-line and the indented text, and from
any other that differs in white space only. The arena need not be a tree, and its names may hold any
characters. Only its numbers have to fit the widths that are read. -/
theorem json_round_trip {tree : SyntaxTree} (h : tree.Fits) :
    parse? tree.toJson.render = some tree ∧ parse? tree.toJson.renderPretty = some tree ∧
      ∀ text : String, Json.Spaced tree.toJson.tokens text.toList → parse? text = some tree :=
  ⟨parse?_of_spaced h h.plain_toJson.spaced_render,
    parse?_of_spaced h h.plain_toJson.spaced_renderPretty, fun _ => parse?_of_spaced h⟩

/-- An arena that is no tree, with the largest offset and position, a name of no characters, one
with every kind of escape, and nodes with a parent but no name and with neither. -/
def entangled : SyntaxTree where
  nodes := #[
    { kind := .attr, range := ⟨18446744073709551615, 0⟩, parent := some 4294967295,
      children := [4294967295, 0, 4294967295], name := some "" },
    { kind := .macroStatement, range := ⟨7, 7⟩,
      name := some "a\"\\/\n\r\t\x00\x08\x0c\x1f\x7f é😀" },
    { kind := .file, range := ⟨0, 0⟩, parent := some 2 },
    { kind := .typeAlias, range := ⟨1, 10⟩, children := [1] }]

/-- This arena fits, so it is read back from each of its texts. -/
theorem json_round_trip_entangled :
    entangled.Fits ∧ parse? entangled.toJson.render = some entangled ∧
      parse? entangled.toJson.renderPretty = some entangled ∧
      ∀ text : String, Json.Spaced entangled.toJson.tokens text.toList →
        parse? text = some entangled :=
  have h : entangled.Fits := by decide
  ⟨h, json_round_trip h⟩

end SyntaxTree

end Arborist
