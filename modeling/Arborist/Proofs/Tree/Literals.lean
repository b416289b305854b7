import Arborist.Proofs.Grammar.Item
import Arborist.Proofs.Tree.OfSource

/-!
# `Arborist.Proofs.Tree.Literals`: what the literals of a tree cover

The literals of an outline stand in the text where their spans say so (`Grammar.outline_faithful`).
Here this is carried on to the tree of the text. A literal has nothing below it, so fitting leaves
its range as it was opened, and the range comes from the two places of the span.

These places are counted behind a byte order mark but looked up in the whole text. From the second
line on this makes no difference. On the first line every column is one too small, so that a range
starts one character too early and, unless it ends on a later line, ends one character too early
(`Source.offsetBehind`).
-/

set_option autoImplicit false

namespace Arborist

open OrderedTree (Holds HoldsAll holds_node holdsAll_nil holdsAll_cons fit_node)
open Grammar (Outline Denotes FaithfulTo)
open Grammar.Outline (outlines_induction)
open Text (byteLength)

/-- Between the ends of two beginnings of a text stands what the longer one has more. Both are
counted in characters here, and the slice is taken by bytes. -/
theorem Text.slice?_take (text : String) {n m : Nat} (h : n ≤ m) :
    slice? text (byteLength (text.toList.take n)) (byteLength (text.toList.take m)) =
      some (String.ofList ((text.toList.take m).drop n)) := by
  have hsplit : text.toList.take n ++ (text.toList.take m).drop n = text.toList.take m := by
    have hfront : (text.toList.take m).take n = text.toList.take n := by
      rw [List.take_take, Nat.min_eq_left h]
    rw [← hfront, List.take_append_drop]
  have hslice : sliceChars text.toList (byteLength (text.toList.take n))
      (byteLength (text.toList.take m)) = some ((text.toList.take m).drop n) := by
    refine sliceChars_eq_some_iff.2 ⟨text.toList.take n, text.toList.drop m, ?_, rfl, ?_⟩
    · rw [hsplit, List.take_append_drop]
    · rw [← byteLength_append, hsplit]
  rw [slice?, hslice]
  rfl

namespace Source

/-! ### Places behind a byte order mark -/

/-- A text without a byte order mark is left as it is. -/
theorem dropByteOrderMark_of_head {cs : List Char} (h : cs.head? ≠ some byteOrderMark) :
    dropByteOrderMark cs = cs := by
  cases cs with
  | nil => rfl
  | cons c cs => exact if_neg fun hc => h (congrArg some hc)

/-- A byte order mark is dropped, and only this one character. -/
theorem dropByteOrderMark_cons (cs : List Char) :
    dropByteOrderMark (byteOrderMark :: cs) = cs := by rw [dropByteOrderMark, if_pos rfl]

/-- The number of characters of a text in front of the place that is found for the one behind
`front`: all that are there, but on the first line not the byte order mark. -/
def countBehind (text : List Char) (front : List Char) : Nat :=
  if text.head? = some byteOrderMark ∧ '\n' ∈ front then front.length + 1 else front.length

/-- Behind a line feed, a character in front of everything is not seen: it is on another line, and
columns start anew. -/
theorem afterAll_cons_of_mem {c : Char} (hc : c ≠ '\n') {front : List Char} (h : '\n' ∈ front) :
    Position.first.afterAll (c :: front) = Position.first.afterAll front := by
  obtain ⟨before, line, rfl, hline, hends⟩ := Text.exists_lastLine front
  rcases hends with rfl | ⟨earlier, rfl⟩
  · exact absurd h hline
  · have hends : ∃ all, c :: (earlier ++ ['\n']) = all ++ ['\n'] := ⟨c :: earlier, rfl⟩
    rw [Position.afterAll_of_ends _ ⟨earlier, rfl⟩ hline, ← List.cons_append,
      Position.afterAll_of_ends _ hends hline, List.count_cons_of_ne (by simpa using hc)]

/-- The place behind the first characters of what follows a byte order mark is also the place behind
this many characters of the text. -/
theorem afterAll_take_countBehind {text front rest : List Char}
    (h : dropByteOrderMark text = front ++ rest) :
    Position.first.afterAll (text.take (countBehind text front)) =
      Position.first.afterAll front := by
  by_cases hmark : text.head? = some byteOrderMark
  · obtain ⟨body, rfl⟩ := List.head?_eq_some_iff.1 hmark
    rw [dropByteOrderMark_cons] at h
    by_cases hline : '\n' ∈ front
    · rw [countBehind, if_pos ⟨rfl, hline⟩, h, List.take_succ_cons, List.take_left,
        afterAll_cons_of_mem (by decide) hline]
    · -- The same number of characters, all on the first line.
      have htake : (byteOrderMark :: body).take front.length =
          (byteOrderMark :: front).take front.length := by
        rw [h, ← List.cons_append, List.take_append_of_le_length (by simp)]
      have hnone : '\n' ∉ (byteOrderMark :: front).take front.length := by
        intro hmem
        rcases List.mem_cons.1 (List.mem_of_mem_take hmem) with hmem | hmem
        · exact absurd hmem (by decide)
        · exact hline hmem
      rw [countBehind, if_neg fun hboth => hline hboth.2, htake,
        Position.afterAll_of_not_mem _ hnone, Position.afterAll_of_not_mem _ hline,
        List.length_take, Nat.min_eq_left (by simp)]
  · rw [countBehind, if_neg fun hboth => hmark hboth.1]
    rw [dropByteOrderMark_of_head hmark] at h
    rw [h, List.take_left]

/-- More characters in front of a place make the number no smaller. Behind a byte order mark it
grows by one more than there are characters, if the first line feed is among them. -/
theorem countBehind_le_append (text front more : List Char) :
    countBehind text front ≤ countBehind text (front ++ more) := by
  rw [countBehind, countBehind, List.length_append]
  split
  · next hboth =>
      rw [if_pos ⟨hboth.1, List.mem_append_left more hboth.2⟩]
      omega
  · split <;> omega

/-- The offset that is found for the place behind `front` in what follows a byte order mark. -/
def offsetBehind (text : String) (front : List Char) : Nat :=
  byteLength (text.toList.take (countBehind text.toList front))

/-- A place that was counted behind a byte order mark has the offset that `offsetBehind` says. -/
theorem offsetOf_afterAll {text : String} {front rest : List Char}
    (h : dropByteOrderMark text.toList = front ++ rest) :
    OutlineBuilder.offsetOf (LineIndex.ofText text) (Position.first.afterAll front) =
      offsetBehind text front := by
  rw [← afterAll_take_countBehind h, OutlineBuilder.offsetOf,
    LineIndex.offset?_afterAll (List.take_append_drop _ _).symm]
  rfl

/-- A later place has no smaller offset, so that a literal does not end before it starts. -/
theorem offsetBehind_le_append (text : String) (front more : List Char) :
    offsetBehind text front ≤ offsetBehind text (front ++ more) := by
  obtain ⟨n, hn⟩ := Nat.exists_eq_add_of_le (countBehind_le_append text.toList front more)
  rw [offsetBehind, offsetBehind, hn, List.take_add, Text.byteLength_append]
  exact Nat.le_add_right _ _

/-- Between two such offsets stand the characters between the two numbers. -/
theorem slice?_offsetBehind (text : String) (front more : List Char) :
    Text.slice? text (offsetBehind text front) (offsetBehind text (front ++ more)) =
      some (String.ofList ((text.toList.take (countBehind text.toList (front ++ more))).drop
        (countBehind text.toList front))) :=
  Text.slice?_take text (countBehind_le_append text.toList front more)

end Source

/-! ### Literals in outlines -/

/-- How a literal with this name is spelled: like its name, but a number behind a minus sign with
anything between the two, and not with the one blank of the name. -/
inductive Spelled : NodeKind → String → List Char → Prop where
  | plain (kind : NodeKind) (name : String) : Spelled kind name name.toList
  | negative (number : String) (gap : List Char) :
      Spelled .numberLiteral ("- " ++ number) ('-' :: gap ++ number.toList)

namespace Grammar

open Source (Position Span StandsAt place)

/-- What stands at a span is a piece of the text. -/
theorem exists_split_of_standsAt {text : List Char} {n : Nat} {cs : List Char} {span : Span}
    (h : StandsAt text n cs span) : ∃ back, text = text.take n ++ (cs ++ back) ∧
      span = ⟨Position.first.afterAll (text.take n),
        Position.first.afterAll (text.take n ++ cs)⟩ := by
  obtain ⟨back, hback⟩ := h.characters
  refine ⟨back, by rw [hback, List.take_append_drop], ?_⟩
  rw [h.span_eq, place, place, List.take_add, ← hback, List.take_left]

/-- A literal is spelled in the text, and its span is that of its spelling. For a number with a
minus sign the spelling goes from the sign to the end of the number. -/
theorem Denotes.exists_spelling {text : List Char} {kind : NodeKind} {span : Span} {name : String}
    (h : Denotes text kind span name) : ∃ front spelling back, text = front ++ (spelling ++ back) ∧
      Spelled kind name spelling ∧
      span = ⟨Position.first.afterAll front, Position.first.afterAll (front ++ spelling)⟩ := by
  cases h with
  | plain stands =>
      obtain ⟨back, hsplit, hspan⟩ := exists_split_of_standsAt stands
      exact ⟨_, _, back, hsplit, .plain kind name, hspan⟩
  | @negative n m minus span number sign le stands =>
      obtain ⟨-, -, hminus⟩ := exists_split_of_standsAt sign
      obtain ⟨back, hnumber, hspan⟩ := exists_split_of_standsAt stands
      obtain ⟨rest, hrest⟩ := sign.characters
      obtain ⟨k, rfl⟩ := Nat.exists_eq_add_of_le le
      -- Up to the number there is the sign, and perhaps more.
      have htake : text.take (n + 1 + k) = text.take n ++ '-' :: rest.take k := by
        rw [Nat.add_assoc, List.take_add, ← hrest, Nat.add_comm 1]
        rfl
      refine ⟨text.take n, _, back, ?_, .negative number (rest.take k), ?_⟩
      · rw [htake] at hnumber
        simpa using hnumber
      · rw [hminus, hspan, htake]
        simp [Span.to]

end Grammar

/-! ### Literals in trees -/

/-- A literal of this kind and name is spelled in the text behind `front`, and its range is the one
that is found for the places of its spelling. -/
structure LiteralAt (text : String) (kind : NodeKind) (name : Option String) (range : TextRange)
    (front spelling back : List Char) : Prop where
  stands : Source.dropByteOrderMark text.toList = front ++ (spelling ++ back)
  spelled : ∃ own, name = some own ∧ Spelled kind own spelling
  range_eq : range = ⟨Source.offsetBehind text front, Source.offsetBehind text (front ++ spelling)⟩

/-- If the tree is a literal, then it is a leaf that stands in the text. -/
def OrderedTree.LiteralStands (text : String) : OrderedTree → Prop
  | .node kind range name children => kind.category = .literal → children = [] ∧
    ∃ front spelling back, LiteralAt text kind name range front spelling back

namespace OutlineBuilder

variable {text : String}

/-- The range that a literal is opened with. Its span has a place, and ends no earlier than it
starts, so the range is found for the two places without any correction. -/
theorem exists_literalAt {kind : NodeKind} {span : Source.Span} {name : String}
    (h : Denotes (Source.dropByteOrderMark text.toList) kind span name) (cursor : Nat) :
    ∃ front spelling back, LiteralAt text kind (some name)
      (rangeOf (LineIndex.ofText text) cursor span) front spelling back := by
  obtain ⟨front, spelling, back, hsplit, hspelled, rfl⟩ := h.exists_spelling
  have hstop : Source.dropByteOrderMark text.toList = (front ++ spelling) ++ back := by
    rw [hsplit, List.append_assoc]
  have hline : (Source.Position.first.afterAll front).line ≠ 0 := by
    rw [Source.Position.line_afterAll]
    show 1 + _ ≠ 0
    omega
  refine ⟨front, spelling, back, hsplit, ⟨name, rfl, hspelled⟩, ?_⟩
  -- The end is not before the start, so the range is not widened.
  have hle := Source.offsetBehind_le_append text front spelling
  rw [rangeOf, if_neg hline, Source.offsetOf_afterAll hsplit, Source.offsetOf_afterAll hstop]
  exact congrArg (TextRange.mk _) (Nat.max_eq_left hle)

/-- The literals of faithful outlines are opened as leaves that stand in the text. The induction
follows the outlines, and only a literal itself has something to show. -/
theorem openedAll_literalStands {os : List Outline}
    (h : FaithfulTo (Source.dropByteOrderMark text.toList) os) (cursor : Nat) :
    HoldsAll (OrderedTree.LiteralStands text) (openedAll (LineIndex.ofText text) cursor os).1 := by
  induction os using outlines_induction generalizing cursor with
  | nil =>
      rw [openedAll_nil]
      exact holdsAll_nil _
  | cons kind span name inside os ihi ihr =>
      obtain ⟨hnode, hos⟩ := Grammar.faithful_cons.1 h
      have hnode : Outline.Faithful _ (.node kind span name inside) := hnode
      rw [openedAll_cons]
      refine holdsAll_cons.2 ⟨holds_node.2 ?_, ihr hos _⟩
      cases hnode with
      | literal hdenotes =>
          rw [openedAll_nil]
          exact ⟨fun _ => ⟨rfl, exists_literalAt hdenotes cursor⟩, holdsAll_nil _⟩
      -- A node that is no literal has nothing to show itself.
      | node hkind hinside => exact ⟨fun hliteral => absurd hliteral hkind, ihi hinside _⟩

end OutlineBuilder

namespace SyntaxTree

variable {text : String}

/-- Fitting leaves literals as they are, because there is nothing below them. The file is no
literal, so nothing is asked of the root. -/
theorem openedFile_literalStands {outlines : List Outline}
    (h : FaithfulTo (Source.dropByteOrderMark text.toList) outlines) :
    (openedFile text outlines).fit.Holds (OrderedTree.LiteralStands text) := by
  have hchildren : HoldsAll (OrderedTree.LiteralStands text) (OrderedTree.fitAll
      (OutlineBuilder.openedAll (LineIndex.ofText text) 0 outlines).1) := by
    refine (OutlineBuilder.openedAll_literalStands h 0).fitAll
      fun kind range name children hown _ => ?_
    rw [fit_node]
    intro hliteral
    -- A literal is a leaf, and a leaf covers itself only.
    obtain ⟨rfl, hstands⟩ := hown hliteral
    rw [OrderedTree.fitAll_nil]
    exact ⟨rfl, hstands⟩
  rw [openedFile, fit_node]
  exact holds_node.2 ⟨fun hfile => absurd hfile (by decide), hchildren⟩

/-- Every literal in the tree of a text stands in it. The outlines of the text are faithful to it,
the opened tree takes this over, and a node of the arena is the root of a tree that has it. -/
theorem exists_literalAt_of_ofSource {tree : SyntaxTree} (h : ofSource text = .ok tree)
    {id : NodeId} {node : SyntaxNode} (hnode : tree.node? id = some node)
    (hliteral : node.kind.category = .literal) :
    ∃ front spelling back, LiteralAt text node.kind node.name node.range front spelling back := by
  cases hread : Grammar.outline text with
  | error place =>
      rw [ofSource, hread] at h
      cases h
  | ok outlines =>
      rw [ofSource_eq hread] at h
      cases h
      have hstands := openedFile_literalStands (Grammar.outline_faithful hread)
      obtain ⟨u, hu, hstored⟩ := hstands.exists_storedAt hnode
      cases u with
      | node kind range name children =>
          obtain ⟨⟨parent, hstored⟩, -⟩ := OrderedTree.storedAt_node.1 hstored
          cases hnode.symm.trans hstored
          exact (hu hliteral).2

end SyntaxTree

/-! ### What a literal covers -/

namespace LiteralAt

variable {text : String} {node : SyntaxNode} {front spelling back : List Char}

/-- The text of a literal, by the numbers of characters in front of its two places. -/
theorem text?_eq (h : LiteralAt text node.kind node.name node.range front spelling back) :
    node.text? text = some (String.ofList
      ((text.toList.take (Source.countBehind text.toList (front ++ spelling))).drop
        (Source.countBehind text.toList front))) := by
  rw [SyntaxNode.text?, h.range_eq]
  exact Source.slice?_offsetBehind text front spelling

/-- Without a byte order mark, or from the second line on, a literal covers its spelling. In both
cases every character in front of its two places is counted, the mark included. -/
theorem text?_eq_spelling (h : LiteralAt text node.kind node.name node.range front spelling back)
    (hplace : text.toList.head? ≠ some Source.byteOrderMark ∨ '\n' ∈ front) :
    node.text? text = some (String.ofList spelling) := by
  rw [h.text?_eq]
  by_cases hmark : text.toList.head? = some Source.byteOrderMark
  · -- Behind a line feed the mark is counted for both ends of the literal.
    have hline : '\n' ∈ front := hplace.resolve_left fun hne => hne hmark
    obtain ⟨body, hbody⟩ := List.head?_eq_some_iff.1 hmark
    have hstands := h.stands
    rw [hbody, Source.dropByteOrderMark_cons] at hstands
    rw [Source.countBehind, Source.countBehind, if_pos ⟨hmark, hline⟩,
      if_pos ⟨hmark, List.mem_append_left _ hline⟩, hbody, hstands, List.take_succ_cons,
      List.drop_succ_cons, ← List.append_assoc, List.take_left, List.drop_left]
  · have hstands := h.stands
    rw [Source.dropByteOrderMark_of_head hmark] at hstands
    rw [Source.countBehind, Source.countBehind, if_neg fun hboth => hmark hboth.1,
      if_neg fun hboth => hmark hboth.1, hstands, ← List.append_assoc, List.take_left,
      List.drop_left]

/-- On the first line behind a byte order mark, a literal starts one character too early, and it
ends one character too early unless it ends on a later line. -/
theorem text?_eq_shifted (h : LiteralAt text node.kind node.name node.range front spelling back)
    (hmark : text.toList.head? = some Source.byteOrderMark) (hfirst : '\n' ∉ front) :
    let shifted := (Source.byteOrderMark :: front).drop front.length ++ spelling
    node.text? text =
      some (String.ofList (if '\n' ∈ spelling then shifted else shifted.dropLast)) := by
  intro shifted
  obtain ⟨body, hbody⟩ := List.head?_eq_some_iff.1 hmark
  have htext : text.toList = Source.byteOrderMark :: (front ++ spelling) ++ back := by
    have hstands := h.stands
    rw [hbody, Source.dropByteOrderMark_cons] at hstands
    rw [hbody, hstands, List.cons_append, List.append_assoc]
  have hshifted : shifted = (Source.byteOrderMark :: (front ++ spelling)).drop front.length := by
    rw [← List.cons_append, List.drop_append_of_le_length (by simp)]
  -- The start is on the first line, so it is looked up without the mark.
  have hstart : Source.countBehind text.toList front = front.length :=
    if_neg fun hboth => hfirst hboth.2
  rw [h.text?_eq, hstart, Source.countBehind]
  by_cases hline : '\n' ∈ spelling
  · -- The end is on a later line and is right.
    have hstop : text.toList.take ((front ++ spelling).length + 1) =
        Source.byteOrderMark :: (front ++ spelling) := by
      rw [htext, List.cons_append, List.take_succ_cons, List.take_left]
    rw [if_pos ⟨hmark, List.mem_append_right _ hline⟩, if_pos hline, hstop, ← hshifted]
  · -- The end is on the first line too, and the last character is missing.
    have hnone : '\n' ∉ front ++ spelling := by simp [hfirst, hline]
    have hstop : text.toList.take (front ++ spelling).length =
        (Source.byteOrderMark :: (front ++ spelling)).dropLast := by
      rw [htext, List.take_append_of_le_length (by simp), List.dropLast_eq_take]
      rfl
    rw [if_neg fun hboth => hnone hboth.2, if_neg hline, hstop, hshifted, List.dropLast_eq_take,
      List.dropLast_eq_take, List.drop_take, List.length_drop, Nat.sub_right_comm]

/-- Only the name of a number behind a minus sign differs from the spelling. -/
theorem name_eq_spelling {kind : NodeKind} {name : Option String} {range : TextRange}
    (h : LiteralAt text kind name range front spelling back)
    (hname : ∀ number, name ≠ some ("- " ++ number)) : name = some (String.ofList spelling) := by
  obtain ⟨own, hown, hspelled⟩ := h.spelled
  cases hspelled with
  | plain => rw [hown, String.ofList_toList]
  | negative number gap => exact absurd hown (hname number)

end LiteralAt

namespace SyntaxTree

/-- In the tree of any text that can be read, every literal stands in the text, spelled like its
name or, for a number behind a minus sign, with the sign, what follows it and the number. If the
text has no byte order mark, or a line feed comes before the literal, then the text of the node is
this spelling, and the name of the node if no minus sign is in it. On the first line behind a byte
order mark, the text of the node starts one character too early, and it ends one character too early
unless the literal ends on a later line. -/
theorem literal_covers_spelling {text : String} {tree : SyntaxTree} (h : ofSource text = .ok tree)
    {id : NodeId} {node : SyntaxNode} (hnode : tree.node? id = some node)
    (hliteral : node.kind.category = .literal) :
    ∃ front spelling back, LiteralAt text node.kind node.name node.range front spelling back ∧
      (text.toList.head? ≠ some Source.byteOrderMark ∨ '\n' ∈ front →
        node.text? text = some (String.ofList spelling) ∧
          ((∀ number, node.name ≠ some ("- " ++ number)) → node.text? text = node.name)) ∧
      (text.toList.head? = some Source.byteOrderMark → '\n' ∉ front →
        let shifted := (Source.byteOrderMark :: front).drop front.length ++ spelling
        node.text? text =
          some (String.ofList (if '\n' ∈ spelling then shifted else shifted.dropLast))) := by
  obtain ⟨front, spelling, back, hat⟩ := exists_literalAt_of_ofSource h hnode hliteral
  refine ⟨front, spelling, back, hat, fun hplace => ?_, hat.text?_eq_shifted⟩
  have htext := hat.text?_eq_spelling hplace
  exact ⟨htext, fun hname => htext.trans (hat.name_eq_spelling hname).symm⟩

/-- The tree of a byte order mark, `fn f(){` and, on a line of its own, `1}`. -/
def markedTree : SyntaxTree :=
  OrderedTree.arena <| .node .file ⟨0, 13⟩ none [.node .function ⟨0, 13⟩ (some "f") [
    .node .block ⟨8, 13⟩ none [.node .numberLiteral ⟨11, 12⟩ (some "1") []]]]

/-- The literal `1` on the second line covers its spelling in spite of the byte order mark, which
moves the columns of the first line only. -/
theorem literal_covers_spelling_marked :
    let text := "\ufefffn f()\x7b\n1\x7d"
    let node : SyntaxNode := ⟨.numberLiteral, ⟨11, 12⟩, some 2, [], some "1"⟩
    ofSource text = .ok markedTree ∧ markedTree.node? 3 = some node ∧ node.text? text = some "1" ∧
      ∃ front spelling back, LiteralAt text node.kind node.name node.range front spelling back := by
  intro text node
  have hread : ofSource text = .ok markedTree := eq_ok_of_toOption (by decide +kernel)
  have hnode : markedTree.node? 3 = some node := by decide +kernel
  obtain ⟨front, spelling, back, hat, -⟩ := literal_covers_spelling hread hnode rfl
  exact ⟨hread, hnode, by decide +kernel, front, spelling, back, hat⟩

/-- The text can be read, but a literal of its tree does not cover its name. -/
def MissesLiteral (text : String) : Prop :=
  ∃ tree id node, ofSource text = .ok tree ∧ tree.node? id = some node ∧
    node.kind.category = .literal ∧ node.text? text ≠ node.name

/-- A literal may not cover its name. In the first text a byte order mark shifts the columns of the
only line, and the literal `1` covers the brace in front of it. In the second text a pattern with a
minus sign covers `-1` and is named `- 1`. -/
theorem literal_misses_name :
    MissesLiteral "\ufefffn f()\x7b1\x7d" ∧ MissesLiteral "fn f()\x7bmatch a\x7b-1=>2\x7d\x7d" := by
  constructor
  · have hread : ofSource "\ufefffn f()\x7b1\x7d" = .ok (OrderedTree.arena <|
        .node .file ⟨0, 12⟩ none [.node .function ⟨0, 11⟩ (some "f") [
          .node .block ⟨8, 11⟩ none [.node .numberLiteral ⟨9, 10⟩ (some "1") []]]]) :=
      eq_ok_of_toOption (by decide +kernel)
    exact ⟨_, 3, ⟨.numberLiteral, ⟨9, 10⟩, some 2, [], some "1"⟩, hread, by decide +kernel, rfl,
      by decide +kernel⟩
  · have hread : ofSource "fn f()\x7bmatch a\x7b-1=>2\x7d\x7d" = .ok (OrderedTree.arena <|
        .node .file ⟨0, 22⟩ none [.node .function ⟨0, 22⟩ (some "f") [
          .node .block ⟨6, 22⟩ none [.node .matchExpr ⟨7, 21⟩ none [
            .node .path ⟨13, 14⟩ (some "a") [], .node .matchArm ⟨15, 20⟩ none [
              .node .numberLiteral ⟨15, 17⟩ (some "- 1") [],
              .node .numberLiteral ⟨19, 20⟩ (some "2") []]]]]]) :=
      eq_ok_of_toOption (by decide +kernel)
    exact ⟨_, 6, ⟨.numberLiteral, ⟨15, 17⟩, some 5, [], some "- 1"⟩, hread, by decide +kernel, rfl,
      by decide +kernel⟩

end SyntaxTree

end Arborist
