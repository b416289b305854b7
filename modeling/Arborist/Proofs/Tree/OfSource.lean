import Arborist.Proofs.Text.LineIndex
import Arborist.Proofs.Tree.Builder
import Arborist.Tree.OfSource

/-!
# `Arborist.Proofs.Tree.OfSource`: the trees of source texts

An outline is opened node by node, with ranges that come from its spans: `OutlineBuilder.opened` is
the tree with these ranges. What `SyntaxTree.ofOutlines` builds is the arena of this tree after it
was fitted (`ofOutlines_eq`).

The spans may be anything. A place that the text does not have is its end, and a span without a
place is empty at the start of the node opened before it, so every range that a node is opened with
lies on the text: it is not inverted and its ends fall between characters (`TextRange.On`). Fitting
keeps this and puts children inside their parents. What is left for the validation to find is the
order in which the nodes start: `ofOutlines_wellFormed`.
-/

set_option autoImplicit false

namespace Arborist

open OrderedTree (Holds HoldsAll holds_node holdsAll_nil holdsAll_cons fit_node)
open Grammar (Outline)

namespace Grammar.Outline

/-- Outlines are none, or a node with the outlines inside it and those behind it. -/
theorem outlines_induction {Q : List Outline → Prop} (nil : Q [])
    (cons : ∀ kind span name inside rest, Q inside → Q rest →
      Q (.node kind span name inside :: rest)) : (os : List Outline) → Q os
  | [] => nil
  | .node kind span name inside :: rest =>
    cons kind span name inside rest (outlines_induction nil cons inside)
      (outlines_induction nil cons rest)

end Grammar.Outline

open Grammar.Outline (outlines_induction)

namespace OutlineBuilder

mutual

/-- The tree of an outline with the ranges that its nodes are opened with, and the start of the last
one of them. -/
def opened (index : LineIndex) (cursor : Nat) : Outline → OrderedTree × Nat
  | .node kind span name inside =>
    let range := rangeOf index cursor span
    let (children, cursor) := openedAll index range.start inside
    (.node kind range name children, cursor)

/-- The trees of outlines with the ranges that their nodes are opened with. -/
def openedAll (index : LineIndex) (cursor : Nat) : List Outline → List OrderedTree × Nat
  | [] => ([], cursor)
  | o :: os =>
    let (t, cursor) := opened index cursor o
    let (ts, cursor) := openedAll index cursor os
    (t :: ts, cursor)

end

/-- No outlines open no node and leave the cursor where it was. -/
theorem openedAll_nil (index : LineIndex) (cursor : Nat) :
    openedAll index cursor [] = ([], cursor) := by rw [openedAll]

/-- The cursor goes from an outline to those inside it, and from the last of these to the ones
behind. -/
theorem openedAll_cons (index : LineIndex) (cursor : Nat) (kind : NodeKind) (span : Source.Span)
    (name : Option String) (inside os : List Outline) :
    openedAll index cursor (.node kind span name inside :: os) =
      let range := rangeOf index cursor span
      let below := openedAll index range.start inside
      let right := openedAll index below.2 os
      (.node kind range name below.1 :: right.1, right.2) := by
  rw [openedAll, opened]

/-- Adding outlines to a builder plants their trees. The cursor does not depend on the builder, so
the ranges of all nodes are known before anything is planted. -/
theorem outlines_eq (index : LineIndex) (b : TreeBuilder) (cursor : Nat) (os : List Outline) :
    outlines index ⟨b, cursor⟩ os =
      ⟨b.plantAll (openedAll index cursor os).1, (openedAll index cursor os).2⟩ := by
  induction os using outlines_induction generalizing b cursor with
  | nil => rw [outlines, openedAll_nil, TreeBuilder.plantAll_nil]
  | cons kind span name inside os ihi ihr =>
      rw [outlines, outline, enter, ihi, leave, ihr, openedAll_cons, TreeBuilder.plantAll_cons,
        TreeBuilder.plant_node]

end OutlineBuilder

namespace SyntaxTree

/-- The tree of a file with the ranges that its nodes are opened with. -/
def openedFile (text : String) (outlines : List Outline) : OrderedTree :=
  .node .file ⟨0, text.utf8ByteSize⟩ none
    (OutlineBuilder.openedAll (LineIndex.ofText text) 0 outlines).1

/-- A file always gets a tree: the opened one, fitted. -/
theorem ofOutlines_eq (text : String) (outlines : List Outline) :
    ofOutlines text outlines = .ok (openedFile text outlines).fit.arena := by
  rw [← TreeBuilder.build_plant, openedFile, TreeBuilder.plant_node]
  show (OutlineBuilder.outlines _ ⟨_, 0⟩ outlines).leave.builder.build = _
  rw [OutlineBuilder.outlines_eq]
  rfl

end SyntaxTree

/-! ### Ranges on a text -/

/-- The range covers a piece of the text: it is not inverted and cuts no character. -/
structure TextRange.On (text : String) (range : TextRange) : Prop where
  ordered : range.start ≤ range.stop
  start : Text.isBoundary text range.start = true
  stop : Text.isBoundary text range.stop = true

namespace TextRange

variable {text : String}

/-- A range on the text ends in it. -/
theorem On.bounded {range : TextRange} (h : range.On text) : range.stop ≤ text.utf8ByteSize :=
  Text.le_of_isBoundary h.stop

/-- The whole text is a piece of it. -/
theorem on_whole (text : String) : On text ⟨0, text.utf8ByteSize⟩ :=
  ⟨Nat.zero_le _, Text.isBoundary_zero text, Text.isBoundary_utf8ByteSize text⟩

/-- The cover of two pieces is a piece: each of its ends is an end of one of them, and it is not
inverted since neither of them is. -/
theorem On.cover {a b : TextRange} (ha : a.On text) (hb : b.On text) : (a.cover b).On text := by
  refine ⟨?_, ?_, ?_⟩
  · have := ha.ordered
    show min a.start b.start ≤ max a.stop b.stop
    omega
  · -- Which of the two starts it is does not matter, and likewise for the ends.
    show Text.isBoundary text (min a.start b.start) = true
    rcases Nat.le_total a.start b.start with h | h
    · rw [Nat.min_eq_left h]
      exact ha.start
    · rw [Nat.min_eq_right h]
      exact hb.start
  · show Text.isBoundary text (max a.stop b.stop) = true
    rcases Nat.le_total a.stop b.stop with h | h
    · rw [Nat.max_eq_right h]
      exact hb.stop
    · rw [Nat.max_eq_left h]
      exact ha.stop

/-- So is the cover of any number of pieces. -/
theorem On.foldl_cover {range : TextRange} {ts : List OrderedTree} (h : range.On text)
    (hts : ∀ t ∈ ts, On text t.range) :
    On text (ts.foldl (fun range child => range.cover child.range) range) := by
  induction ts generalizing range with
  | nil => exact h
  | cons t ts ih => exact ih (h.cover (hts t (by simp))) fun u hu => hts u (by simp [hu])

/-- The whole text is its own cover with anything on it. So the range of the file is not changed by
fitting. -/
theorem foldl_cover_whole {ts : List OrderedTree} (hts : ∀ t ∈ ts, On text t.range) :
    ts.foldl (fun range child => range.cover child.range) (⟨0, text.utf8ByteSize⟩ : TextRange) =
      ⟨0, text.utf8ByteSize⟩ := by
  induction ts with
  | nil => rfl
  | cons t ts ih =>
      have hcover : cover ⟨0, text.utf8ByteSize⟩ t.range = ⟨0, text.utf8ByteSize⟩ := by
        have hstop := (hts t (by simp)).bounded
        rw [cover, Nat.zero_min, Nat.max_eq_left hstop]
      rw [List.foldl_cons, hcover]
      exact ih fun u hu => hts u (by simp [hu])

end TextRange

namespace OutlineBuilder

variable {text : String}

/-- Every place has an offset between characters, also one that the text does not have. -/
theorem isBoundary_offsetOf (text : String) (place : Source.Position) :
    Text.isBoundary text (offsetOf (LineIndex.ofText text) place) = true := by
  rw [offsetOf]
  cases hoffset : (LineIndex.ofText text).offset? place.line place.column with
  | none => exact Text.isBoundary_utf8ByteSize text
  | some offset => exact LineIndex.isBoundary_of_offset? hoffset

/-- Whatever the span is, its range lies on the text. A span without a place is empty at the cursor,
and an end before the start is moved to the start. -/
theorem rangeOf_on {cursor : Nat} (hcursor : Text.isBoundary text cursor = true)
    (span : Source.Span) : (rangeOf (LineIndex.ofText text) cursor span).On text := by
  rw [rangeOf]
  split
  · exact ⟨Nat.le_refl _, hcursor, hcursor⟩
  · have hstart := isBoundary_offsetOf text span.start
    refine ⟨Nat.le_max_right _ _, hstart, ?_⟩
    show Text.isBoundary text (max _ _) = true
    rcases Nat.le_total (offsetOf (LineIndex.ofText text) span.stop)
      (offsetOf (LineIndex.ofText text) span.start) with h | h
    · rw [Nat.max_eq_right h]
      exact hstart
    · rw [Nat.max_eq_left h]
      exact isBoundary_offsetOf text span.stop

/-- All ranges that nodes are opened with lie on the text. The cursor stays between characters on
the way, which is what ranges of spans without a place need. -/
theorem openedAll_on {cursor : Nat} (hcursor : Text.isBoundary text cursor = true)
    (os : List Outline) :
    HoldsAll (fun t => t.range.On text) (openedAll (LineIndex.ofText text) cursor os).1 ∧
      Text.isBoundary text (openedAll (LineIndex.ofText text) cursor os).2 = true := by
  induction os using outlines_induction generalizing cursor with
  | nil =>
      rw [openedAll_nil]
      exact ⟨holdsAll_nil _, hcursor⟩
  | cons kind span name inside os ihi ihr =>
      have hrange := rangeOf_on hcursor span
      -- The cursor goes to the start of the node, from there through its inside, and on to the
      -- right.
      obtain ⟨hinside, hbelow⟩ := ihi hrange.start
      obtain ⟨hos, hright⟩ := ihr hbelow
      rw [openedAll_cons]
      exact ⟨holdsAll_cons.2 ⟨holds_node.2 ⟨hrange, hinside⟩, hos⟩, hright⟩

end OutlineBuilder

/-! ### What is built -/

/-- The tree lies on the text, and its children inside it. -/
structure OrderedTree.Nested (text : String) (t : OrderedTree) : Prop where
  on : t.range.On text
  contains : ∀ child ∈ t.children, t.range.contains child.range = true

namespace OrderedTree

variable {text : String}

/-- One node over a fitted forest: its new range covers those of its children, and as all of these
lie on the text, so does their cover. -/
theorem nested_fit {kind : NodeKind} {range : TextRange} {name : Option String}
    {children : List OrderedTree} (hrange : range.On text)
    (hbelow : HoldsAll (Nested text) (fitAll children)) :
    Nested text (node kind range name children).fit := by
  rw [fit_node]
  exact ⟨hrange.foldl_cover fun t ht => (hbelow.of_mem ht).on,
    (TextRange.contains_foldl_cover range (fitAll children)).2⟩

/-- Fitting a forest on the text puts children inside their parents and leaves everything on the
text. -/
theorem fitAll_nested {ts : List OrderedTree} (h : HoldsAll (fun t => t.range.On text) ts) :
    HoldsAll (Nested text) (fitAll ts) :=
  h.fitAll fun _ _ _ _ hrange hbelow => nested_fit hrange hbelow

end OrderedTree

namespace SyntaxTree

variable {text : String}

/-- What can be said of the tree of a text, wherever its nodes stand. -/
structure WellFormed (text : String) (tree : SyntaxTree) : Prop where
  /-- The first node is the file and covers the text. -/
  root : ∃ root, tree.node? 0 = some root ∧ root.kind = .file ∧ root.range = ⟨0, text.utf8ByteSize⟩
  /-- Links and storage are those of an ordered tree. -/
  preorder : ∃ t : OrderedTree, tree = t.arena
  /-- Ranges are not inverted, and both ends fall between characters of the text. -/
  ranges : ∀ node ∈ tree.nodes, node.range.On text
  /-- A child lies inside its parent. -/
  nested : ∀ node ∈ tree.nodes, ∀ child ∈ node.children, ∀ childNode,
    tree.node? child = some childNode → node.range.contains childNode.range = true
  /-- The validation finds nothing wrong, unless a node starts before the one before it. -/
  validate : tree.validate text.utf8ByteSize = .ok () ∨ ∃ node start previous,
    tree.validate text.utf8ByteSize = .error (.startDecreases node start previous)

/-- The fitted tree of a file lies on its text, with children inside their parents. The root is
treated apart, because its range is not opened with a span. -/
theorem openedFile_nested (text : String) (outlines : List Outline) :
    (openedFile text outlines).fit.Holds (OrderedTree.Nested text) := by
  obtain ⟨hopened, -⟩ := OutlineBuilder.openedAll_on (Text.isBoundary_zero text) outlines
  have hchildren := OrderedTree.fitAll_nested hopened
  have hroot : OrderedTree.Nested text (openedFile text outlines).fit :=
    OrderedTree.nested_fit (TextRange.on_whole text) hchildren
  rw [openedFile, fit_node] at hroot ⊢
  exact holds_node.2 ⟨hroot, hchildren⟩

/-- Every node of the arena of such a tree, with its children. A node of the arena is the root of a
tree that is stored there, and this tree has the property. -/
theorem nested_of_mem {t : OrderedTree} (h : t.Holds (OrderedTree.Nested text)) {node : SyntaxNode}
    (hmem : node ∈ t.arena.nodes) :
    node.range.On text ∧ ∀ child ∈ node.children, ∀ childNode,
      t.arena.node? child = some childNode → node.range.contains childNode.range = true := by
  obtain ⟨id, hnode⟩ := mem_nodes_iff.1 hmem
  obtain ⟨u, hu, hstored⟩ := h.exists_storedAt hnode
  cases u with
  | node kind range name children =>
      obtain ⟨⟨parent, hread⟩, -⟩ := OrderedTree.storedAt_node.1 hstored
      refine ⟨?_, fun child hchild childNode hchildNode => ?_⟩
      · cases hnode.symm.trans hread
        exact hu.on
      · exact hstored.contains_child hu.contains hnode hchild hchildNode

/-- The arena of the fitted tree is well-formed. The range of its root is the whole text already, so
that fitting does not change it. -/
theorem wellFormed_openedFile (text : String) (outlines : List Outline) :
    WellFormed text (openedFile text outlines).fit.arena := by
  have hnested := openedFile_nested text outlines
  refine ⟨?_, ⟨_, rfl⟩, fun node hmem => (nested_of_mem hnested hmem).1,
    fun node hmem => (nested_of_mem hnested hmem).2, ?_⟩
  · have hstored := (openedFile text outlines).fit.storedAt_arena
    obtain ⟨hopened, -⟩ := OutlineBuilder.openedAll_on (Text.isBoundary_zero text) outlines
    -- All children lie on the text, so the cover of the whole text with them is the whole text.
    have hchildren := OrderedTree.fitAll_nested hopened
    rw [openedFile, fit_node, TextRange.foldl_cover_whole fun t ht => (hchildren.of_mem ht).on]
      at hstored ⊢
    obtain ⟨⟨parent, hread⟩, -⟩ := OrderedTree.storedAt_node.1 hstored
    exact ⟨_, hread, rfl, rfl⟩
  · refine validate_arena_or (fun node hmem => ?_) fun node hmem => (nested_of_mem hnested hmem).2
    have hon := (nested_of_mem hnested hmem).1
    exact ⟨hon.ordered, hon.bounded⟩

/-- A text whose outlines were read gets the tree of these outlines. -/
theorem ofSource_eq {outlines : List Outline} (h : Grammar.outline text = .ok outlines) :
    ofSource text = .ok (openedFile text outlines).fit.arena := by
  rw [ofSource, h]
  simp only [ofOutlines_eq]
  rfl

/-- Whatever outlines a reader of the text hands over, with whatever spans, a tree is built. Its
first node is the file, all its ranges lie on the text, it is stored as an ordered tree with
children inside their parents, and the validation accepts it or objects to the order of its starts.
So a text that can be read has such a tree, and building it is never what fails. -/
theorem ofOutlines_wellFormed (text : String) :
    (∀ outlines, ∃ tree, ofOutlines text outlines = .ok tree ∧ WellFormed text tree) ∧
    (∀ outlines, Grammar.outline text = .ok outlines →
      ∃ tree, ofSource text = .ok tree ∧ WellFormed text tree) ∧
    (∀ error, ofSource text ≠ .error (.tree error)) := by
  refine ⟨fun outlines => ?_, fun outlines hread => ?_, fun error hfails => ?_⟩
  · exact ⟨_, ofOutlines_eq text outlines, wellFormed_openedFile text outlines⟩
  · exact ⟨_, ofSource_eq hread, wellFormed_openedFile text outlines⟩
  · cases hread : Grammar.outline text with
    | error place =>
        rw [ofSource, hread] at hfails
        cases hfails
    | ok outlines =>
        rw [ofSource_eq hread] at hfails
        cases hfails

end SyntaxTree

end Arborist
