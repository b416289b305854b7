import Arborist.Grammar.Statement
import Arborist.Proofs.Grammar.Type

/-!
# `Arborist.Proofs.Grammar.Expression`: patterns, expressions and statements keep to the text

As for types, there is one theorem for each production, which follows it line by line.
-/

set_option autoImplicit false

namespace Arborist.Grammar

open Source (Position Span Token Reads)
open Grammar.Parser

variable {text : List Char} {G : Productions}

/-- What an expression contributes, where its shape does not matter. -/
theorem expressionOutlines_keeps (hG : G.Keep text) (structs : Bool) :
    Keeps text (do return (← G.expression structs).outlines) :=
  .bind (hG.expression structs) fun _ he => .pure (Expr.faithful_outlines he)

/-! ### Patterns -/

/-- A pattern without a node of its own passes on what is inside it. -/
theorem Pattern.plain_keeps (start : Position) {outlines : List Outline}
    (h : FaithfulTo text outlines) : Keeps text (Pattern.plain start outlines) :=
  .seq (.since start) fun _ => .pure (faithful_base_none faithful_nil h)

/-- A silent pattern contributes nothing. -/
theorem Pattern.silent_keeps (start : Position) : Keeps text (Pattern.silent start) :=
  .seq (.since start) fun _ => .pure (faithful_base_none faithful_nil faithful_nil)

/-- The first alternative and then those behind a bar, each of which was looked for before it is
skipped. -/
theorem alternatives_keeps (hG : G.Keep text) : Keeps text (alternatives G) := by
  refine .seq .here fun start => .seq (.marksIf (by decide)) fun _ =>
    .bind hG.pattern fun first hfirst => .seq .ahead fun _ => .ite ?_ (.pure hfirst)
  refine .bind (.whileLook fun i hi hbar => ?_) fun further hfurther => ?_
  · refine (KeepsFrom.skip hi (.of_look hbar fun _ _ _ => rfl)).bind fun _ _ => ?_
    exact .bind hG.pattern fun p hp => .pure (Pattern.faithful_outlines hp)
  · exact Pattern.plain_keeps start
      (faithful_append.2 ⟨Pattern.faithful_outlines hfirst, hfurther⟩)

/-- What a pattern with alternatives contributes. -/
theorem alternativesOutlines_keeps (hG : G.Keep text) :
    Keeps text (do return (← alternatives G).outlines) :=
  .bind (alternatives_keeps hG) fun _ hp => .pure (Pattern.faithful_outlines hp)

/-- A path is a node around what its arguments contribute, and no literal. -/
theorem pathExpr_keeps {path : PathPhrase} (hpath : FaithfulTo text path) (start : Position) :
    Keeps text (pathExpr path start) :=
  .seq (.since start) fun _ => .pure (faithful_base_some (by decide) faithful_nil hpath)

/-- The block behind `const` with its inner attributes. -/
theorem constBlock_keeps (hG : G.Keep text) (start : Position) :
    Keeps text (constBlock G start) := by
  refine .seq (.word "const") fun _ => .bind (blockWithAttributes_keeps hG) fun parts hparts => ?_
  refine .seq (.since start) fun _ => .pure ?_
  exact faithful_base_none hparts.1 (faithful_singleton hparts.2)

/-- A bound is a literal, which comes from its token, a path or a block; or there is none. The four
cases are told by the tokens ahead. -/
theorem rangeBound_keeps (hG : G.Keep text) : Keeps text (rangeBound G) := by
  refine .seq .here fun start => .seq .ahead fun ts => .ite (.pure faithful_none)
    (.ite ?_ (.ite ?_ (.ite ?_ .fail)))
  · refine .bind .literal fun value hvalue => .pure (faithful_some.2 ?_)
    exact faithful_base_none faithful_nil (faithful_singleton hvalue)
  · refine .bind (path_keeps hG true) fun path hpath => ?_
    exact .bind (pathExpr_keeps hpath start) fun e he => .pure (faithful_some.2 he)
  · exact .bind (constBlock_keeps hG start) fun e he => .pure (faithful_some.2 he)

/-- The dots are marks other than the hash sign. -/
theorem patternDots_keeps : Keeps text patternDots := by
  refine .ifMarks (by decide) (.pure trivial) (.ifMarks (by decide) (.pure trivial) ?_)
  exact .seq (.marks (by decide)) fun _ => .pure trivial

/-- A range contributes its lower bound and then its upper one. Without an upper bound it must be
open. -/
theorem patternRange_keeps (hG : G.Keep text) {lower : Expr} (hlower : FaithfulTo text lower) :
    Keeps text (patternRange G lower) := by
  have hlower := Expr.faithful_outlines hlower
  refine .seq .here fun dots => .seq patternDots_keeps fun closed =>
    .bind (rangeBound_keeps hG) fun upper hupper => ?_
  cases upper with
  | some upper =>
      have hupper := Expr.faithful_outlines (faithful_some.1 hupper)
      refine .seq (.since _) fun _ => .pure ?_
      exact faithful_base_none faithful_nil (faithful_append.2 ⟨hlower, hupper⟩)
  | none =>
      refine .ite .fail_bind (.seq (.since _) fun _ => .pure ?_)
      exact faithful_base_none faithful_nil hlower

/-- Both kinds of dots lead to the same rest. Without any bound, open dots contribute nothing, and
closed ones are an error. -/
theorem patternRangeTo_keeps (hG : G.Keep text) : Keeps text (patternRangeTo G) := by
  refine .seq .here fun dots => .ifMarks (by decide) (.seq (.pure trivial) ?_)
    (.seq (.seq (.marks (by decide)) fun _ => .pure trivial) ?_)
  all_goals
    refine fun closed => .bind (rangeBound_keeps hG) fun upper hupper => ?_
    cases upper with
    | some upper =>
        have hupper := Expr.faithful_outlines (faithful_some.1 hupper)
        exact .seq (.since _) fun _ => .pure (faithful_base_none faithful_nil hupper)
    | none =>
        refine .ite .fail_bind (.seq (.since _) fun _ => .pure ?_)
        exact faithful_base_none faithful_nil faithful_nil

/-- A field contributes the pattern behind its colon. A name alone contributes nothing, and neither
does the number that a position is written with. -/
theorem fieldPattern_keeps (hG : G.Keep text) : Keeps text (fieldPattern G) := by
  refine .seq (.wordIf "box") fun _ => .seq (.wordIf "ref") fun _ => .seq (.wordIf "mut") fun _ =>
    .look fun i hi => .ite (fun _ => ?_) fun _ => .ite (fun hname => ?_) fun _ => ?_
  · exact .of hi (.seq .identifier fun _ => .pure faithful_nil)
  · refine (KeepsFrom.skip hi (.of_look hname fun _ _ _ => rfl)).bind fun _ _ => ?_
    exact .ifMarks (by decide) (alternativesOutlines_keeps hG) (.pure faithful_nil)
  · split
    · next hts =>
        -- The number of a position is a literal token, but no node comes of it.
        refine .ite (fun _ => .of hi .fail_bind) fun _ => ?_
        refine (KeepsFrom.skip hi (.of_cons hts (by simp))).bind fun _ _ => ?_
        exact .seq (.marks (by decide)) fun _ => alternativesOutlines_keeps hG
    · exact .fail

/-- The loop carries what the fields contributed so far, each behind its attributes; two dots end
it. -/
theorem fieldPatterns_keeps (hG : G.Keep text) : Keeps text (fieldPatterns G) := by
  refine .loop faithful_nil fun found hfound => .ifEnd (.pure hfound) ?_
  refine .bind outerAttributes_keeps fun attributes hattributes => ?_
  have hfound := faithful_append.2 ⟨hfound, hattributes⟩
  refine .ifMarks (by decide) (.pure hfound) (.bind (fieldPattern_keeps hG) fun field hfield => ?_)
  have hmore := faithful_append.2 ⟨hfound, hfield⟩
  exact .ifEnd (.pure hmore) (.seq (.marks (by decide)) fun _ => .pure hmore)

/-- What stands behind the path decides: an invocation contributes nothing, fields and elements come
behind what the path contributes, and dots make the path the lower bound of a range. -/
theorem pathPattern_keeps (hG : G.Keep text) : Keeps text (pathPattern G) := by
  refine .seq .here fun start => .bind (path_keeps hG true) fun path hpath => .seq .ahead fun ts =>
    .ite ?_ (.ite ?_ (.ite ?_ ?_))
  · refine .seq invocationRest_keeps fun braced => .seq (.since start) fun _ => .pure ?_
    exact faithful_base_none faithful_nil faithful_nil
  · refine .bind (.group (fieldPatterns_keeps hG)) fun fields hfields => ?_
    exact Pattern.plain_keeps start (faithful_append.2 ⟨hpath, hfields⟩)
  · refine .bind (.group (.terminated (alternativesOutlines_keeps hG))) fun elements helements => ?_
    exact Pattern.plain_keeps start (faithful_append.2 ⟨hpath, helements⟩)
  · refine .bind (pathExpr_keeps hpath start) fun body hbody => ?_
    exact .ite (patternRange_keeps hG hbody) (.pure hbody)

/-- A name contributes the pattern behind the `@`, or nothing. The name itself and the words in
front of it are no nodes. -/
theorem namePattern_keeps (hG : G.Keep text) : Keeps text (namePattern G) := by
  refine .seq .here fun start => .seq (.wordIf "ref") fun _ => .seq (.wordIf "mut") fun _ =>
    .seq (.identifierOr _) fun name => .ifMarks (by decide)
      (.bind hG.pattern fun p hp => .bind (.pure (Pattern.faithful_outlines hp)) ?_)
      (.bind (.pure faithful_nil) ?_)
  all_goals
    intro inside hinside
    exact .seq (.since start) fun _ => .pure (faithful_base_none faithful_nil hinside)

/-- Elements of a slice are patterns, of which some are refused. -/
theorem sliceElements_keeps (hG : G.Keep text) : Keeps text (sliceElements G) := by
  refine .terminated (.bind (alternatives_keeps hG) fun element helement => ?_)
  split
  · exact .failAt _
  · exact .pure (Pattern.faithful_outlines helement)

/-- The first tokens decide which form of a pattern is read, in the order in which the production
asks. -/
theorem pattern_keeps (hG : G.Keep text) : Keeps text (pattern G) := by
  refine .seq .here fun start => .seq .ahead fun ts => .ite (pathPattern_keeps hG)
    (.ifWord "_" (Pattern.plain_keeps start faithful_nil) (.ifWord "box" ?_ (.ite ?_ (.ite ?_
      (.ifMarks (by decide) ?_ (.ite ?_ (.ite ?_ (.ite (patternRangeTo_keeps hG) .fail))))))))
  · exact .seq hG.pattern fun _ => Pattern.silent_keeps start
  · -- A literal, by itself or as the lower end of a range.
    refine .bind (rangeBound_keeps hG) fun lower hlower => ?_
    cases lower with
    | some lower =>
        have hlower := faithful_some.1 hlower
        exact .seq .ahead fun _ => .ite (patternRange_keeps hG hlower) (.pure hlower)
    | none => exact .fail
  · exact namePattern_keeps hG
  · refine .seq (.wordIf "mut") fun _ => .bind hG.pattern fun p hp => ?_
    exact Pattern.plain_keeps start (Pattern.faithful_outlines hp)
  · refine .bind (.group (.terminated (alternativesOutlines_keeps hG))) fun inside hinside => ?_
    exact Pattern.plain_keeps start hinside
  · refine .bind (.group (sliceElements_keeps hG)) fun inside hinside => ?_
    exact Pattern.plain_keeps start hinside

/-! ### Operators -/

/-- The loop carries the operand with the operators that were read so far. -/
theorem rightOperand_keeps (hG : G.Keep text) (structs : Bool) (precedence : Precedence) :
    Keeps text (rightOperand G structs precedence) := by
  refine .bind (hG.operand structs) fun right hright => .loop hright fun right hright => ?_
  refine .seq .ahead fun ts => .ite ?_ (.pure hright)
  refine .bind (hG.operation structs _ right hright) fun right hright => ?_
  exact .seq .ahead fun _ => .ite (.pure hright) (.pure hright)

/-- What such an operand contributes. -/
theorem rightOutlines_keeps (hG : G.Keep text) (structs : Bool) (precedence : Precedence) :
    Keeps text (do return (← rightOperand G structs precedence).outlines) :=
  .bind (rightOperand_keeps hG structs precedence) fun _ he => .pure (Expr.faithful_outlines he)

/-- An upper bound is an operand, and a range may lack it. -/
theorem rangeRest_keeps (hG : G.Keep text) (structs : Bool) :
    Keeps text (rangeRest G structs) := by
  refine .ifMarks (by decide) (rightOutlines_keeps hG structs .range)
    (.seq .ahead fun ts => .ite .fail (.seq (.marks (by decide)) fun _ => ?_))
  exact .seq .ahead fun _ => .ite (.pure faithful_nil) (rightOutlines_keeps hG structs .range)

/-- No operator has a hash sign. -/
theorem bare_of_binaryOperator? {ts : List Token} {operator : String} {precedence : Precedence}
    (h : binaryOperator? ts = some (operator, precedence)) : Bare operator.length ts := by
  rw [binaryOperator?] at h
  have hahead := List.find?_some h
  have hnone : ∀ m ∈ binaryOperators, '#' ∉ m.1.toList := by decide
  exact .of_atMarks (hnone _ (List.mem_of_find?_eq_some h)) hahead

/-- One operator behind an operand keeps to the text. The operators of two operands are found in a
list without hash signs; an assignment, a range and a cast are looked for one by one. -/
theorem operationStep_keeps (hG : G.Keep text) (structs : Bool) (least : Precedence) {left : Expr}
    (hleft : FaithfulTo text left) : Keeps text (operationStep G structs least left) := by
  refine .look fun i hi => .ite (fun _ => .pure hi hleft) fun _ => ?_
  split
  · next operator precedence hoperator =>
      -- What stands on both sides of an operator goes into its node.
      refine .ite (fun _ => .pure hi hleft) fun _ => .ite (fun _ => .of hi .fail_bind) fun _ => ?_
      refine (KeepsFrom.skip hi (bare_of_binaryOperator? hoperator)).bind fun _ _ => ?_
      refine .bind (rightOperand_keeps hG structs precedence) fun right hright => .pure ?_
      exact ⟨Frame.plain_some (by simp [NodeKind.category]), hleft, Expr.faithful_outlines hright⟩
  · -- An assignment, a range or a cast, or else the end.
    refine .ite (fun hassign => ?_) fun _ => .ite (fun _ => .of hi ?_) fun _ =>
      .ite (fun hcast => ?_) fun _ => .pure hi hleft
    · have hahead : atAssignment i.rest = true := (Bool.and_eq_true_iff.1 hassign).2
      have hmark : atMarks "=" i.rest = true := (Bool.and_eq_true_iff.1 hahead).1
      refine (KeepsFrom.skip hi (.of_atMarks (by decide) hmark)).bind fun _ _ => ?_
      refine .bind (rightOperand_keeps hG structs .assign) fun right hright => .pure ?_
      exact ⟨Frame.plain_some (by decide), hleft, Expr.faithful_outlines hright⟩
    · refine .bind (rangeRest_keeps hG structs) fun upper hupper => .seq (.since _) fun _ =>
        .pure (faithful_base_none faithful_nil ?_)
      exact faithful_append.2 ⟨Expr.faithful_outlines hleft, hupper⟩
    · have hahead : atWord "as" i.rest = true := (Bool.and_eq_true_iff.1 hcast).2
      refine (KeepsFrom.skip hi (.of_atWord hahead)).bind fun _ _ => ?_
      refine .bind (hG.type false) fun type htype => .seq .ahead fun _ => .ite .fail_bind ?_
      exact .seq (.since _) fun _ => .pure ⟨Frame.plain_none, hleft, htype⟩

/-- From one operator to all of them, by the loop that reads one after the other. -/
theorem operation_keeps (hG : G.Keep text) (structs : Bool) (least : Precedence) {left : Expr}
    (hleft : FaithfulTo text left) : Keeps text (operation G structs least left) :=
  .loop hleft fun _ hleft => operationStep_keeps hG structs least hleft

/-- An operand and the operators behind it. -/
theorem expression_keeps (hG : G.Keep text) (structs : Bool) :
    Keeps text (expression G structs) :=
  .bind (hG.operand structs) fun left hleft => hG.operation structs .jump left hleft

/-- Expressions between commas, as in calls and tuples. -/
theorem expressions_keeps (hG : G.Keep text) : Keeps text (expressions G) :=
  .terminated (expressionOutlines_keeps hG true)

/-! ### Branches, loops and closures -/

/-- An expression that ends a statement is as faithful as its parts. -/
theorem blockLike_keeps (start : Position) {frame : Option Frame} (hframe : Frame.Plain frame)
    {attributes inside : List Outline} (hattributes : FaithfulTo text attributes)
    (hinside : FaithfulTo text inside) :
    Keeps text (blockLike start frame attributes inside) :=
  .seq (.since start) fun _ => .pure ⟨hframe, hattributes, hinside⟩

instance : Faithful OpenBranch := ⟨fun text branch => FaithfulTo text branch.inside⟩

/-- Each open branch becomes a node around the ones inside it. The induction goes from the innermost
branch outwards. -/
theorem closeBranches_faithful (stop : Position) {outer : List OpenBranch} {inside : List Outline}
    (houter : FaithfulTo text outer) (hinside : FaithfulTo text inside) :
    FaithfulTo text (closeBranches stop outer inside) := by
  induction outer generalizing inside with
  | nil => exact hinside
  | cons b outer ih =>
      obtain ⟨hb, houter⟩ := faithful_cons.1 houter
      refine ih houter (faithful_singleton (faithful_node (by decide) ?_))
      exact faithful_append.2 ⟨hb, hinside⟩

/-- From one open branch at least, closing them makes a single branch. Therefore `branch` never
fails where it takes this node apart. -/
theorem closeBranches_cons (stop : Position) (b : OpenBranch) (outer : List OpenBranch)
    (inside : List Outline) : ∃ span inner,
      closeBranches stop (b :: outer) inside = [.node .ifExpr span none inner] := by
  induction outer generalizing b inside with
  | nil => exact ⟨_, _, rfl⟩
  | cons c outer ih => exact ih c _

/-- The open branches, of which there is one, and the alternative of the innermost one. -/
instance : Faithful (List OpenBranch × List Outline) :=
  ⟨fun text parts => parts.1 ≠ [] ∧ FaithfulTo text parts.1 ∧ FaithfulTo text parts.2⟩

/-- A branch is read in a loop over `else if`, which carries the branches that are still open; they
are closed when the last alternative is known. -/
theorem branch_keeps (hG : G.Keep text) : Keeps text (branch G) := by
  refine .seq .here fun start => .bind (.loop faithful_nil fun outer houter => ?_) ?_
  · refine .seq .here fun own => .seq (.word "if") fun _ => ?_
    refine .bind (hG.expression false) fun condition hcondition => ?_
    refine .bind (block_keeps hG) fun body hbody => ?_
    have hown : FaithfulTo text (⟨own, condition.outlines ++ [body]⟩ :: outer : List OpenBranch) :=
      faithful_cons.2 ⟨faithful_append.2
        ⟨Expr.faithful_outlines hcondition, faithful_singleton hbody⟩, houter⟩
    refine .ifWord "else" (.seq .ahead fun ts => .ite (.pure hown) (.ite ?_ .fail)) ?_
    · refine .bind (block_keeps hG) fun last hlast => .pure ?_
      exact ⟨List.cons_ne_nil _ _, hown, faithful_singleton hlast⟩
    · exact .pure ⟨List.cons_ne_nil _ _, hown, faithful_nil⟩
  · rintro ⟨outer, inside⟩ ⟨hne, houter, hinside⟩
    obtain ⟨b, outer, rfl⟩ := List.exists_cons_of_ne_nil hne
    refine .seq (.since start) fun span => ?_
    -- One branch at least is open, so they close to a branch and not to a literal.
    have hclosed := closeBranches_faithful span.stop houter hinside
    obtain ⟨whole, inner, heq⟩ := closeBranches_cons span.stop b outer inside
    simp only [heq] at hclosed ⊢
    have hnode : Outline.Faithful text (.node .ifExpr whole none inner) :=
      (faithful_cons.1 hclosed).1
    cases hnode with
    | node hkind hinner => exact .pure (faithful_base_some hkind faithful_nil hinner)

/-- The body of a loop comes behind what its head contributes. -/
theorem loopBody_keeps (hG : G.Keep text) (start : Position) (name : String) {head : List Outline}
    (hhead : FaithfulTo text head) : Keeps text (loopBody G start name head) := by
  refine .bind (blockWithAttributes_keeps hG) fun parts hparts => ?_
  refine blockLike_keeps start (Frame.plain_some (by simp [NodeKind.category])) hparts.1 ?_
  exact faithful_append.2 ⟨hhead, faithful_singleton hparts.2⟩

/-- The head is a condition. -/
theorem whileLoop_keeps (hG : G.Keep text) (start : Position) : Keeps text (whileLoop G start) := by
  refine .seq (.word "while") fun _ => .bind (hG.expression false) fun condition hcondition => ?_
  exact loopBody_keeps hG start "while" (Expr.faithful_outlines hcondition)

/-- The head is a pattern and the values it runs over. -/
theorem forLoop_keeps (hG : G.Keep text) (start : Position) : Keeps text (forLoop G start) := by
  refine .seq (.word "for") fun _ => .bind (alternatives_keeps hG) fun element helement => ?_
  refine .seq (.word "in") fun _ => .bind (hG.expression false) fun values hvalues => ?_
  exact loopBody_keeps hG start "for"
    (faithful_append.2 ⟨Pattern.faithful_outlines helement, Expr.faithful_outlines hvalues⟩)

/-- There is no head. -/
theorem plainLoop_keeps (hG : G.Keep text) (start : Position) : Keeps text (plainLoop G start) :=
  .seq (.word "loop") fun _ => loopBody_keeps hG start "loop" faithful_nil

/-- A block as an expression has no node around its own. -/
theorem blockExpr_keeps (hG : G.Keep text) (start : Position) : Keeps text (blockExpr G start) :=
  .bind (blockWithAttributes_keeps hG) fun _ hparts =>
    blockLike_keeps start Frame.plain_none hparts.1 (faithful_singleton hparts.2)

/-- The word in front adds nothing. -/
theorem unsafeBlock_keeps (hG : G.Keep text) (start : Position) :
    Keeps text (unsafeBlock G start) :=
  .seq (.word "unsafe") fun _ => blockExpr_keeps hG start

/-- Behind `try` a block has no inner attributes. -/
theorem tryBlock_keeps (hG : G.Keep text) (start : Position) : Keeps text (tryBlock G start) :=
  .seq (.word "try") fun _ => .bind (block_keeps hG) fun _ hblock =>
    blockLike_keeps start Frame.plain_none faithful_nil (faithful_singleton hblock)

/-- Nor has it behind `async`, with or without `move`. -/
theorem asyncBlock_keeps (hG : G.Keep text) (start : Position) :
    Keeps text (asyncBlock G start) := by
  refine .seq (.word "async") fun _ => .seq (.wordIf "move") fun _ => ?_
  refine .bind (block_keeps hG) fun block hblock => .seq (.since start) fun _ => .pure ?_
  exact faithful_base_none faithful_nil (faithful_singleton hblock)

/-- A label contributes nothing, and what it belongs to is one of four. -/
theorem labelled_keeps (hG : G.Keep text) : Keeps text (labelled G) := by
  refine .seq .here fun start => .seq .lifetime fun _ => .seq (.marks (by decide)) fun _ => ?_
  exact .seq .ahead fun ts => .ite (whileLoop_keeps hG start) (.ite (forLoop_keeps hG start)
    (.ite (plainLoop_keeps hG start) (.ite (blockExpr_keeps hG start) .fail)))

/-- An arm is a node around its attributes, its pattern, its guard and its body, in this order.
Whether a comma has to follow does not change it. -/
theorem matchArm_keeps (hG : G.Keep text) : Keeps text (matchArm G) := by
  refine .seq .here fun start => .bind outerAttributes_keeps fun attributes hattributes => ?_
  refine .bind (alternatives_keeps hG) fun pattern hpattern => ?_
  have hpattern := Pattern.faithful_outlines hpattern
  refine .ifWord "if" (.bind (hG.expression true) fun guard hguard =>
    .bind (.pure (Expr.faithful_outlines hguard)) ?_) (.bind (.pure faithful_nil) ?_)
  all_goals
    refine fun guard hguard => .seq (.marks (by decide)) fun _ => ?_
    refine .bind hG.statementExpression fun body hbody => .seq .atEnd fun _ => ?_
    have hinside : FaithfulTo text (attributes ++ pattern.outlines ++ guard ++ body.outlines) := by
      have hbody := Expr.faithful_outlines hbody
      simp [hattributes, hpattern, hguard, hbody]
    -- A comma, which has to be there or may be, and then the node.
    have harm (x : Unit) : Keeps text (do
        return [Outline.node .matchArm (← since start) none
          (attributes ++ pattern.outlines ++ guard ++ body.outlines)]) :=
      .seq (.since start) fun _ => .pure (faithful_singleton (faithful_node (by decide) hinside))
    exact .ite (.seq (.marks (by decide)) harm) (.seq (.marksIf (by decide)) fun _ => harm ())

/-- The value first, then the arms; inner attributes stand in the braces and come before both. -/
theorem matchExpr_keeps (hG : G.Keep text) : Keeps text (matchExpr G) := by
  refine .seq .here fun start => .seq (.word "match") fun _ => ?_
  refine .bind (hG.expression false) fun value hvalue => .bind (.group ?_) fun parts hparts => ?_
  · refine .bind innerAttributes_keeps fun attributes hattributes => ?_
    exact .bind (.untilEnd (matchArm_keeps hG)) fun arms harms => .pure ⟨hattributes, harms⟩
  · refine blockLike_keeps start (Frame.plain_some (by decide)) hparts.1 ?_
    exact faithful_append.2 ⟨Expr.faithful_outlines hvalue, hparts.2⟩

/-- Attributes of a parameter come first if it has a type. Otherwise they are attached to its
pattern, like those of an expression. -/
theorem closureParameter_keeps (hG : G.Keep text) : Keeps text (closureParameter G) := by
  refine .seq .here fun start => .bind outerAttributes_keeps fun attributes hattributes => ?_
  refine .bind hG.pattern fun pattern hpattern => .ifMarks (by decide) ?_ (.ite ?_ ?_)
  · refine .bind (hG.type true) fun type htype => .pure ?_
    exact faithful_append.2
      ⟨faithful_append.2 ⟨hattributes, Pattern.faithful_outlines hpattern⟩, htype⟩
  · exact .pure (Pattern.faithful_outlines hpattern)
  · exact .pure (Expr.faithful_outlines (Expr.faithful_attach hpattern hattributes start))

/-- A closure is a node around its lifetimes, its parameters and its body. With a result type the
body must be a block, and the type is part of the node as well. -/
theorem closure_keeps (hG : G.Keep text) (structs : Bool) : Keeps text (closure G structs) := by
  refine .seq .here fun start => .bind (boundLifetimesIf_keeps hG) fun first hfirst => ?_
  refine .seq (.wordIf "const") fun _ => .seq (.wordIf "static") fun _ =>
    .seq (.wordIf "async") fun _ => .seq (.wordIf "move") fun _ =>
    .seq (.marks (by decide)) fun _ => ?_
  refine .bind (.enclosed (by decide) (closureParameter_keeps hG)) fun parameters hparameters => ?_
  have hhead := faithful_append.2 ⟨hfirst.2, hparameters⟩
  -- The body is a block behind a result type, or any expression.
  refine .seq (.marks (by decide)) fun _ => .ifMarks (by decide)
    (.bind (hG.type true) fun type htype => .bind (block_keeps hG) fun block hblock =>
      .bind (.pure (faithful_append.2 ⟨htype, faithful_singleton hblock⟩)) ?_)
    (.bind (hG.expression structs) fun e he => .bind (.pure (Expr.faithful_outlines he)) ?_)
  all_goals
    refine fun body hbody => .seq (.since start) fun _ => .pure ?_
    exact faithful_base_some (by decide) faithful_nil (faithful_append.2 ⟨hhead, hbody⟩)

/-- A pattern, and a value that ends where a looser operator than a comparison comes. Both are kept,
the pattern first; the condition itself is no node. -/
theorem letCondition_keeps (hG : G.Keep text) (structs : Bool) :
    Keeps text (letCondition G structs) := by
  refine .seq .here fun start => .seq (.word "let") fun _ => ?_
  refine .bind (alternatives_keeps hG) fun pattern hpattern => .seq (.marks (by decide)) fun _ => ?_
  refine .bind (hG.operand structs) fun first hfirst => ?_
  refine .bind (hG.operation structs .compare first hfirst) fun value hvalue => ?_
  refine .seq (.since start) fun _ => .pure (faithful_base_none faithful_nil ?_)
  exact faithful_append.2 ⟨Pattern.faithful_outlines hpattern, Expr.faithful_outlines hvalue⟩

/-! ### Operands -/

/-- An expression without a node of its own passes on what is inside it. -/
theorem unframed_keeps (start : Position) {inside : List Outline} (h : FaithfulTo text inside) :
    Keeps text (unframed start inside) :=
  .seq (.since start) fun _ => .pure (faithful_base_none faithful_nil h)

/-- An expression that is not there contributes nothing. -/
theorem optionalExpression_keeps (hG : G.Keep text) : Keeps text (optionalExpression G) :=
  .seq .ahead fun _ => .ite (expressionOutlines_keeps hG true) (.pure faithful_nil)

/-- A field contributes its attributes and its value. A name alone stands for a path to that name,
and the number of a position is read but makes no node. -/
theorem fieldValue_keeps (hG : G.Keep text) : Keeps text (fieldValue G) := by
  refine .bind outerAttributes_keeps fun attributes hattributes => .seq .here fun start => ?_
  have hvalue : Keeps text (do return attributes ++ (← G.expression true).outlines) :=
    .bind (hG.expression true) fun e he =>
      .pure (faithful_append.2 ⟨hattributes, Expr.faithful_outlines he⟩)
  refine .look fun i hi => ?_
  split
  · -- The position of a field. Its token is a literal in the text but is skipped here.
    next hts =>
      refine .ite (fun _ => .of hi .fail_bind) fun _ => ?_
      refine (KeepsFrom.skip hi (.of_cons hts (by simp))).bind fun _ _ => ?_
      exact .seq (.marks (by decide)) fun _ => hvalue
  · refine .of hi (.seq .identifier fun name => .seq (.since start) fun span => ?_)
    refine .ifMarks (by decide) hvalue (.pure ?_)
    exact faithful_append.2 ⟨hattributes, faithful_singleton (faithful_leaf (by decide))⟩

/-- The loop carries what the fields contributed so far. Two dots end it, perhaps with a base. -/
theorem fieldValues_keeps (hG : G.Keep text) : Keeps text (fieldValues G) := by
  refine .loop faithful_nil fun found hfound => .ifEnd (.pure hfound) (.ifMarks (by decide) ?_ ?_)
  · refine .ifEnd (.pure hfound) (.bind (hG.expression true) fun e he => .pure ?_)
    exact faithful_append.2 ⟨hfound, Expr.faithful_outlines he⟩
  · refine .bind (fieldValue_keeps hG) fun field hfield => ?_
    have hmore := faithful_append.2 ⟨hfound, hfield⟩
    exact .ifEnd (.pure hmore) (.seq (.marks (by decide)) fun _ => .pure hmore)

/-- An invocation contributes nothing, fields in braces come behind what the path contributes, and
otherwise the path is a node. -/
theorem pathExpression_keeps (hG : G.Keep text) (structs : Bool) :
    Keeps text (pathExpression G structs) := by
  refine .seq .here fun start => .bind (path_keeps hG true) fun path hpath => .seq .ahead fun ts =>
    .ite ?_ (.ite ?_ (pathExpr_keeps hpath start))
  · refine .seq invocationRest_keeps fun braced => .seq (.since start) fun _ => .pure ?_
    exact faithful_base_none faithful_nil faithful_nil
  · refine .bind (.group (fieldValues_keeps hG)) fun fields hfields => ?_
    exact unframed_keeps start (faithful_append.2 ⟨hpath, hfields⟩)

/-- Elements between commas, or an element and a length. Which of the two it is shows behind the
first element. -/
theorem arrayElements_keeps (hG : G.Keep text) : Keeps text (arrayElements G) := by
  refine .ifEnd (.pure faithful_nil) (.bind (hG.expression true) fun first hfirst => ?_)
  have hfirst := Expr.faithful_outlines hfirst
  refine .ifEnd (.pure hfirst) (.ifMarks (by decide) ?_ (.ifMarks (by decide) ?_ .fail))
  · refine .bind (expressions_keeps hG) fun further hfurther => .pure ?_
    exact faithful_append.2 ⟨hfirst, hfurther⟩
  · refine .bind (hG.expression true) fun length hlength => .pure ?_
    exact faithful_append.2 ⟨hfirst, Expr.faithful_outlines hlength⟩

/-- A label contributes nothing, and the value may be missing. A label with a colon is refused in
the end. -/
theorem breakExpression_keeps (hG : G.Keep text) (structs : Bool) :
    Keeps text (breakExpression G structs) := by
  refine .seq .here fun start => .seq (.word "break") fun _ => .seq .here fun label =>
    .seq .ahead fun ts => .ite (.bind (hG.expression true) fun _ _ => .failAt_bind label) ?_
  refine .seq .lifetimeIf fun _ => .seq .ahead fun ts => .ite
    (.bind (hG.expression true) fun e he => .bind (.pure (Expr.faithful_outlines he)) ?_)
    (.bind (.pure faithful_nil) ?_)
  all_goals exact fun value hvalue => unframed_keeps start hvalue

/-- A name behind any tokens. The tokens in front are passed over, and what is behind the name is
still read from the text. -/
theorem identifier_keepsFrom {i : Input} (hi : FaithfulTo text i) (k : Nat) :
    KeepsFrom text (i.skip k) identifier := by
  refine .ahead (.ite (fun _ => .ahead ?_) fun _ => .fail)
  split
  · next w span rest hrest =>
      intro name j h
      cases h
      rw [Input.rest_skip] at hrest
      -- A name is no mark, so `Reads.behind` applies wherever it stands.
      have hbehind : Reads text 0 rest := Reads.behind hi hrest (by simp)
      refine ⟨trivial, ?_⟩
      show Reads text 0 ((i.skip k).skip 1).rest
      rw [Input.rest_skip, Input.rest_skip, hrest]
      exact hbehind
  · exact .fail

/-- A name and brackets behind a hash sign. The hash sign is read whatever it belongs to; behind the
name the tokens are those of the text again. -/
theorem builtin_keepsFrom {i : Input} (hi : FaithfulTo text i) (start : Position) :
    KeepsFrom text i (do
      skip 2
      let _ ← identifier
      if !atGroup .paren (← ahead) then fail
      skip 1
      return Expr.base .silent (← since start) [] none []) := by
  intro e j h
  refine (identifier_keepsFrom hi 2).bind (fun _ _ => .look fun i hi => ?_) e j h
  refine .ite (fun _ => .of hi .fail_bind) fun hahead => ?_
  have hahead : atGroup .paren i.rest = true := by simpa using hahead
  refine (KeepsFrom.skip hi (.of_look hahead fun _ _ _ => rfl)).bind fun _ _ => ?_
  exact .seq (.since start) fun _ => .pure (faithful_base_none faithful_nil faithful_nil)

/-- The first tokens decide which form is read, in the order in which the production asks. The
bullets are the forms that have no production of their own, in the same order. -/
theorem atom_keeps (hG : G.Keep text) (structs : Bool) : Keeps text (atom G structs) := by
  refine .seq .here fun start => .look fun i hi => ?_
  refine .ite (fun _ => .of hi ?_) fun _ => ?_
  · exact .bind .literal fun value hvalue => unframed_keeps start (faithful_singleton hvalue)
  -- A hash sign is read in one case only; behind it, the input no longer matters.
  refine .ite (fun _ => .of hi (asyncBlock_keeps hG start)) fun _ =>
    .ite (fun _ => .of hi (tryBlock_keeps hG start)) fun _ =>
    .ite (fun _ => .of hi (closure_keeps hG structs)) fun _ =>
    .ite (fun _ => builtin_keepsFrom hi start) fun _ => .of hi ?_
  refine .ite (pathExpression_keeps hG structs) (.ite ?_ (.ite (breakExpression_keeps hG structs)
    (.ifWord "continue" ?_ (.ifWord "return" ?_ (.ifWord "become" ?_ (.ite ?_
    (.ite (letCondition_keeps hG structs) (.ite (branch_keeps hG) (.ite (whileLoop_keeps hG start)
    (.ite (forLoop_keeps hG start) (.ite (plainLoop_keeps hG start) (.ite (matchExpr_keeps hG)
    (.ifWord "yield" ?_ (.ite (unsafeBlock_keeps hG start) (.ite (constBlock_keeps hG start)
    (.ite (blockExpr_keeps hG start) (.ite ?_ (.ifWord "_" (unframed_keeps start faithful_nil)
    (.ite (labelled_keeps hG) .fail)))))))))))))))))))
  · exact .bind (.group (expressions_keeps hG)) fun inside hinside => unframed_keeps start hinside
  · exact .seq .lifetimeIf fun _ => unframed_keeps start faithful_nil
  · refine .bind (optionalExpression_keeps hG) fun value hvalue => .seq (.since start) fun _ => ?_
    exact .pure (faithful_base_some (by decide) faithful_nil hvalue)
  · refine .seq (hG.expression true) fun _ => .seq (.since start) fun _ => .pure ?_
    exact faithful_base_none faithful_nil faithful_nil
  · exact .bind (.group (arrayElements_keeps hG)) fun inside hinside => unframed_keeps start hinside
  · exact .bind (optionalExpression_keeps hG) fun value hvalue => unframed_keeps start hvalue
  · refine .bind (rangeRest_keeps hG structs) fun upper hupper => .seq (.since start) fun _ => ?_
    exact .pure (faithful_base_none faithful_nil hupper)

/-- A tuple position is a node around what it is a position of. -/
theorem positionAccess_faithful {base : Expr} (h : FaithfulTo text base) (start : Position)
    (length index : Nat) : FaithfulTo text (positionAccess base start length index) :=
  faithful_base_some (by simp [NodeKind.category]) faithful_nil (Expr.faithful_outlines h)

/-- So are several of them, one around the other. The induction follows the parts of the number,
which stand for one access each. -/
theorem positionAccesses_faithful (start : Position) {before : Nat} {parts : List (List Char)}
    {base e : Expr} (h : FaithfulTo text base)
    (he : positionAccesses start before parts base = some e) : FaithfulTo text e := by
  induction parts generalizing before base with
  | nil =>
      cases he
      exact h
  | cons part parts ih =>
      rw [positionAccesses] at he
      obtain ⟨index, -, he⟩ := Option.bind_eq_some_iff.1 he
      exact ih (positionAccess_faithful h start _ index) he

/-- A member is a node around what is in front of its dot. The arguments of a method come last,
behind its type arguments. -/
theorem namedMember_keeps (hG : G.Keep text) {base : Expr} (hbase : FaithfulTo text base) :
    Keeps text (namedMember G base) := by
  have hinside := Expr.faithful_outlines hbase
  refine .look fun i hi => ?_
  split
  · next name span rest hrest =>
      split
      · refine (KeepsFrom.skip hi (.of_cons hrest (by simp))).bind fun _ _ => ?_
        exact .pure (positionAccess_faithful hbase _ _ _)
      · exact .fail
  · refine .of hi (.ifWord "await" (.seq (.since _) fun _ => .pure ?_) ?_)
    · exact faithful_base_some (by decide) faithful_nil hinside
    · -- What comes behind the name is the same with and without type arguments.
      have hrest (name : String) (turbofish : Bool) {types : List Outline}
          (htypes : FaithfulTo text types) : Keeps text (do
            if turbofish || atGroup .paren (← ahead) then
              let arguments ← group .paren (expressions G)
              return Expr.base .other (← since base.start) [] (some ⟨.methodCall, some name⟩)
                (base.outlines ++ types ++ arguments)
            else
              return Expr.base .other (← since base.start) [] (some ⟨.fieldAccess, some name⟩)
                base.outlines) := by
        refine .seq .ahead fun _ => .ite ?_ (.seq (.since _) fun _ => .pure ?_)
        · refine .bind (.group (expressions_keeps hG)) fun arguments harguments =>
            .seq (.since _) fun _ => .pure ?_
          refine faithful_base_some (by simp [NodeKind.category]) faithful_nil ?_
          exact faithful_append.2 ⟨faithful_append.2 ⟨hinside, htypes⟩, harguments⟩
        · exact faithful_base_some (by simp [NodeKind.category]) faithful_nil hinside
      refine .seq .identifier fun name => .look fun i hi => .ite (fun hturbofish => ?_) fun _ => ?_
      · refine (KeepsFrom.skip hi (.of_atMarks (by decide) hturbofish)).bind fun _ _ => ?_
        exact .bind (angleArguments_keeps hG) fun arguments harguments =>
          .bind (.pure harguments.2) fun types htypes => hrest name _ htypes
      · exact .of hi (.bind (.pure faithful_nil) fun types htypes => hrest name _ htypes)

/-- A number with a point is read as two positions, or as one and a further member, and its token is
skipped as a whole. -/
theorem member_keeps (hG : G.Keep text) {base : Expr} (hbase : FaithfulTo text base) :
    Keeps text (member G base) := by
  refine .look fun i hi => ?_
  split
  · next name span rest hrest =>
      refine .ite (fun _ => ?_) fun _ => .of hi (namedMember_keeps hG hbase)
      dsimp only
      split
      · exact .fail
      · next e haccesses =>
          -- The positions in the number become members, one around the other.
          have he := positionAccesses_faithful span.start hbase haccesses
          refine (KeepsFrom.skip hi (.of_cons hrest (by simp))).bind fun _ _ => ?_
          exact .ite (namedMember_keeps hG he) (.pure he)
  · exact .of hi (namedMember_keeps hG hbase)

/-- The loop carries the expression with the postfix operators read so far: calls, members, indices
and question marks. -/
theorem postfixes_keeps (hG : G.Keep text) {base : Expr} (hbase : FaithfulTo text base) :
    Keeps text (postfixes G base) := by
  refine .loop hbase fun e he => .look fun i hi => .ite (fun _ => .of hi ?_) fun _ =>
    .ite (fun hdot => ?_) fun _ => .ite (fun _ => .of hi ?_) fun _ =>
    .ite (fun hmark => ?_) fun _ => .pure hi he
  -- A call, a member, an index and a question mark, each around the expression so far.
  all_goals have hinside := Expr.faithful_outlines he
  · refine .bind (.group (expressions_keeps hG)) fun arguments harguments =>
      .seq (.since _) fun _ => .pure ?_
    exact faithful_base_some (by simp [NodeKind.category]) faithful_nil
      (faithful_append.2 ⟨hinside, harguments⟩)
  · have hahead : atDot i.rest = true := (Bool.and_eq_true_iff.1 hdot).1
    refine (KeepsFrom.skip hi (.of_look hahead fun _ _ _ => rfl)).bind fun _ _ => ?_
    exact .bind (member_keeps hG he) fun e he => .pure he
  · refine .bind (.group (hG.expression true)) fun index hindex => .seq (.since _) fun _ => .pure ?_
    exact faithful_base_some (by decide) faithful_nil
      (faithful_append.2 ⟨hinside, Expr.faithful_outlines hindex⟩)
  · have hahead : atMarks "?" i.rest = true := (Bool.and_eq_true_iff.1 hmark).1
    refine (KeepsFrom.skip hi (.of_atMarks (by decide) hahead)).bind fun _ _ => ?_
    exact .seq (.since _) fun _ => .pure (faithful_base_some (by decide) faithful_nil hinside)

/-- Attributes are attached to the atom with all of its postfix operators. A range must not have
any. -/
theorem postfixed_keeps (hG : G.Keep text) (structs : Bool) (start : Position)
    {attributes : List Outline} (hattributes : FaithfulTo text attributes) :
    Keeps text (postfixed G structs start attributes) := by
  refine .seq .here fun own => .bind (atom_keeps hG structs) fun base hbase => ?_
  refine .bind (postfixes_keeps hG hbase) fun e he => .ite (.pure he) (.ite (.failAt own) ?_)
  exact .pure (Expr.faithful_attach he hattributes start)

/-- Prefix operators put a node around an operand, and attributes in front of them go into it. The
marks of three operators are skipped in one place, so they are told apart for the hash sign. -/
theorem operand_keeps (hG : G.Keep text) (structs : Bool) : Keeps text (operand G structs) := by
  refine .seq .here fun start => .bind outerAttributes_keeps fun attributes hattributes => ?_
  refine .look fun i hi => .ifMarks hi (by decide) (.look fun i hi => .skipWhen hi ?_ ?_)
    (.ite (fun hmark => ?_) fun _ => .of hi (postfixed_keeps hG structs start hattributes))
  · intro hraw
    exact .of_atWord (Bool.and_eq_true_iff.1 hraw).1
  · -- A raw reference has no node of its own.
    refine .seq (.wordIf "mut") fun mutable => .ite (.seq (.word "const") fun _ => ?_) ?_
    all_goals
      refine .bind (hG.operand structs) fun e he => .seq (.since start) fun _ => .pure ?_
      refine ⟨?_, hattributes, Expr.faithful_outlines he⟩
      split
      · exact Frame.plain_none
      · exact Frame.plain_some (by simp [NodeKind.category])
  · have hbare : Bare 1 i.rest := by
      rcases Bool.or_eq_true_iff.1 hmark with hmark | hmark
      · rcases Bool.or_eq_true_iff.1 hmark with hmark | hmark
        · exact .of_atMarks (by decide) hmark
        · exact .of_atMarks (by decide) hmark
      · exact .of_atMarks (by decide) hmark
    refine (KeepsFrom.skip hi hbare).bind fun _ _ => .bind (hG.operand structs) fun e he => ?_
    refine .seq (.since start) fun _ => .pure ?_
    exact faithful_base_some (by simp [NodeKind.category]) hattributes (Expr.faithful_outlines he)

/-- A block-like expression is looked for first, and any operand otherwise. -/
theorem firstOperand_keeps (hG : G.Keep text) : Keeps text (firstOperand G) :=
  .seq .here fun start => .seq .ahead fun _ => .ite (branch_keeps hG)
    (.ite (whileLoop_keeps hG start) (.ite (forLoop_keeps hG start) (.ite (plainLoop_keeps hG start)
    (.ite (matchExpr_keeps hG) (.ite (tryBlock_keeps hG start) (.ite (unsafeBlock_keeps hG start)
    (.ite (constBlock_keeps hG start) (.ite (blockExpr_keeps hG start) (.ite (labelled_keeps hG)
    (hG.operand true))))))))))

/-- Attributes belong to the first operand, whether or not operators follow it. -/
theorem statementExpression_keeps (hG : G.Keep text) : Keeps text (statementExpression G) := by
  refine .seq .here fun start => .bind outerAttributes_keeps fun attributes hattributes => ?_
  refine .bind (firstOperand_keeps hG) fun first hfirst => .seq .ahead fun ts =>
    .ite ?_ (.ite ?_ (.pure (Expr.faithful_attachLeftmost hfirst hattributes start)))
  · exact hG.operation true .jump _ (Expr.faithful_attachLeftmost hfirst hattributes start)
  · refine .bind (postfixes_keeps hG hfirst) fun e he => ?_
    exact hG.operation true .jump _ (Expr.faithful_attachLeftmost he hattributes start)

/-! ### Statements -/

instance : Faithful InvocationStart := ⟨fun _ _ => True⟩

/-- A path is tried and given up again unless braces make it an invocation. In all but that case the
input is the one from before. -/
theorem invocationStart_keeps : Keeps text invocationStart := by
  intro i hi start j h
  refine ⟨trivial, ?_⟩
  rw [invocationStart] at h
  cases hpath : simplePath i with
  | error place =>
      rw [hpath] at h
      cases h
      exact hi
  | ok result =>
      obtain ⟨path, k⟩ := result
      rw [hpath] at h
      have hk : FaithfulTo text k := (simplePath_keeps i hi path k hpath).2
      dsimp only at h
      -- Either the input is left as it is, or the path is read.
      split at h
      · cases h
        exact hi
      · split at h
        · cases h
          exact hi
        · split at h
          · cases h
            exact hk
          · cases h
            exact hi

/-- A `let` is a node around its attributes, its pattern, its type and its value, of which the last
two may be missing. A block behind `else` belongs to the value. -/
theorem letStatement_keeps (hG : G.Keep text) (start : Position) {attributes : List Outline}
    (hattributes : FaithfulTo text attributes) : Keeps text (letStatement G start attributes) := by
  refine .seq (.word "let") fun _ => .bind hG.pattern fun pattern hpattern => ?_
  have hpattern := Pattern.faithful_outlines hpattern
  -- The end of the statement, with whatever type and value were read.
  have hend {type value : List Outline} (htype : FaithfulTo text type)
      (hvalue : FaithfulTo text value) : Keeps text (do
        marks ";"
        let inside := attributes ++ pattern.outlines ++ type ++ value
        return [Outline.node .letStatement (← since start) pattern.name inside]) := by
    refine .seq (.marks (by decide)) fun _ => .seq (.since start) fun _ => .pure ?_
    refine faithful_singleton (faithful_node (by decide) ?_)
    simp [hattributes, hpattern, htype, hvalue]
  refine .ifMarks (by decide) (.bind (hG.type true) fun type htype => .bind (.pure htype) ?_)
    (.bind (.pure faithful_nil) ?_)
  all_goals
    intro type htype
    refine .ifMarks (by decide) (.bind (hG.expression true) fun value hvalue => ?_)
      (.bind (.pure faithful_nil) fun _ hvalue => hend htype hvalue)
    have hvalue := Expr.faithful_outlines hvalue
    refine .seq .get fun _ => .seq .ahead fun _ => .ite (.seq (.word "else") fun _ => ?_)
      (.bind (.pure hvalue) fun _ hvalue => hend htype hvalue)
    refine .bind (block_keeps hG) fun block hblock => ?_
    exact .bind (.pure (faithful_append.2 ⟨hvalue, faithful_singleton hblock⟩)) fun _ hvalue =>
      hend htype hvalue

/-- An invocation becomes a statement of its own, and any other expression with a semicolon the
inside of one. Without a semicolon an expression is passed on. -/
theorem expressionStatement_keeps (hG : G.Keep text) (start : Position) {attributes : List Outline}
    (hattributes : FaithfulTo text attributes) :
    Keeps text (expressionStatement G start attributes) := by
  refine .bind hG.statementExpression fun e he => .seq (.marksIf (by decide)) fun ended => ?_
  have he := Expr.faithful_outlines (Expr.faithful_attachLeftmost he hattributes start)
  refine .seq (.since _) fun span => ?_
  split
  · refine .ite (.pure ⟨?_, trivial⟩) (.pure ⟨he, trivial⟩)
    exact faithful_singleton (faithful_leaf (by decide))
  · refine .ite (.pure ⟨?_, trivial⟩) (.pure ⟨he, trivial⟩)
    exact faithful_singleton (faithful_node (by decide) he)

/-- A braced invocation, an item, a `let` or an expression. Items are reached in two ways, hence
`hitem`. -/
theorem statement_keeps (hG : G.Keep text) : Keeps text (statement G) := by
  refine .seq .here fun start => .bind outerAttributes_keeps fun attributes hattributes => ?_
  have hitem : Keeps text (do return (← G.item start attributes, false)) :=
    .bind (hG.item start attributes hattributes) fun item hitem => .pure ⟨hitem, trivial⟩
  refine .seq invocationStart_keeps fun ahead => ?_
  cases ahead with
  -- The invocation is a statement, and a semicolon behind it belongs to it.
  | statement name =>
      refine .seq invocationRest_keeps fun _ => .seq (.marksIf (by decide)) fun _ =>
        .seq (.since start) fun _ => .pure ⟨?_, trivial⟩
      exact faithful_singleton (faithful_leaf (by decide))
  | item => exact hitem
  | none =>
      refine .seq .ahead fun ts => .ite ?_
        (.ite hitem (expressionStatement_keeps hG start hattributes))
      exact .bind (letStatement_keeps hG start hattributes) fun own hown => .pure ⟨hown, trivial⟩

/-- The loop carries what the statements contributed so far. A lone semicolon is a node without
children. -/
theorem statements_keeps (hG : G.Keep text) : Keeps text (statements G) := by
  refine .loop faithful_nil fun found hfound => .seq .here fun start => .ifMarks (by decide) ?_ ?_
  · refine .seq (.since start) fun _ => .pure (faithful_append.2 ⟨hfound, ?_⟩)
    exact faithful_singleton (faithful_leaf (by decide))
  · refine .ifEnd (.pure hfound) (.bind (statement_keeps hG) fun own hown => ?_)
    have hmore := faithful_append.2 ⟨hfound, hown.1⟩
    exact .ifEnd (.pure hmore) (.ite .fail_bind (.pure hmore))

end Arborist.Grammar
