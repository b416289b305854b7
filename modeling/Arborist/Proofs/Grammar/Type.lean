import Arborist.Grammar.Type
import Arborist.Proofs.Grammar.Attribute

/-!
# `Arborist.Proofs.Grammar.Type`: paths, generics and types keep to the text

One theorem for each production, which follows it line by line. The productions that a production
refers to are assumed to keep to the text (`Productions.Keep`). Where the ways through a production
come together again, `all_goals` goes on with all of them.
-/

set_option autoImplicit false

namespace Arborist.Grammar

open Source (Position Span Token Reads)
open Grammar.Parser

variable {text : List Char} {G : Productions}

instance : Faithful Segment := ⟨fun _ _ => True⟩
instance : Faithful PathPhrase := ⟨fun text path => FaithfulTo text path.outlines⟩

instance : Faithful Parenthesized := ⟨fun text inside => match inside with
  | .closed outlines => FaithfulTo text outlines
  | .optional outlines => FaithfulTo text outlines
  | .single type => FaithfulTo text type⟩

/-- What a type contributes, where its shape does not matter. -/
theorem typeOutlines_keeps (hG : G.Keep text) (plus : Bool) :
    Keeps text (do return (← G.type plus).outlines) :=
  .bind (hG.type plus) fun _ htype => .pure htype

/-- What a bound contributes, where its kind does not matter. -/
theorem boundOutlines_keeps (hG : G.Keep text) (captures constant : Bool) :
    Keeps text (do return (← G.bound captures constant).outlines) :=
  .bind (hG.bound captures constant) fun _ hbound => .pure hbound

/-! ### Paths and generic arguments -/

/-- A literal comes from its token; the name is a path and the block a node of its own, and neither
is a literal. -/
theorem constantArgument_keeps (hG : G.Keep text) : Keeps text (constantArgument G) := by
  refine .seq .ahead fun ts => .ite ?_ (.ite ?_ (.ite ?_ .fail))
  · exact .bind .literal fun value hvalue => .pure (faithful_singleton hvalue)
  · refine .seq .here fun start => .seq .identifier fun name => .seq (.since start) fun _ => ?_
    exact .pure (faithful_singleton (faithful_leaf (by decide)))
  · refine .bind (blockWithAttributes_keeps hG) fun parts hparts => .pure ?_
    exact faithful_append.2 ⟨hparts.1, faithful_singleton hparts.2⟩

/-- A value in front of which an equals sign stands, bounds behind a colon, or nothing. -/
theorem argumentBinding_keeps (hG : G.Keep text) : Keeps text (argumentBinding G) := by
  refine .ifMarks (by decide) ?_ (.ifMarks (by decide) ?_ (.pure faithful_nil))
  · exact .seq .ahead fun ts => .ite (constantArgument_keeps hG) (typeOutlines_keeps hG true)
  · exact .separated (by decide) (boundOutlines_keeps hG false true)

/-- A lifetime contributes nothing, a constant its node. Only a type of one word can have a binding
behind it. -/
theorem genericArgument_keeps (hG : G.Keep text) : Keeps text (genericArgument G) := by
  refine .look fun i hi => .ite (fun hlifetime => ?_) fun _ =>
    .ite (fun _ => constantArgument_keeps hG i hi) fun _ => ?_
  · have hahead : atLifetime i.rest = true := (Bool.and_eq_true_iff.1 hlifetime).1
    exact (KeepsFrom.skip hi (.of_look hahead fun _ _ _ => rfl)).bind fun _ _ => .pure faithful_nil
  · refine KeepsFrom.bind (hG.type true i hi) fun type htype => ?_
    split
    · refine .bind (argumentBinding_keeps hG) fun binding hbinding => .pure ?_
      exact faithful_append.2 ⟨htype, hbinding⟩
    · exact .pure htype

/-- The brackets are marks other than the hash sign, and the arguments between them keep to the
text. -/
theorem angleArguments_keeps (hG : G.Keep text) : Keeps text (angleArguments G) := by
  refine .seq (.marks (by decide)) fun _ => .seq .ahead fun _ => ?_
  refine .bind (.enclosed (by decide) (genericArgument_keeps hG)) fun inside hinside => ?_
  exact .seq (.marks (by decide)) fun _ => .pure ⟨trivial, hinside⟩

/-- The result type contributes what it does, and nothing if it is not there. -/
theorem returnType_keeps (hG : G.Keep text) (plus : Bool) : Keeps text (returnType G plus) :=
  .ifMarks (by decide) (typeOutlines_keeps hG plus) (.pure faithful_nil)

/-- The types of the arguments first, then the result type. -/
theorem parenArguments_keeps (hG : G.Keep text) : Keeps text (parenArguments G) := by
  refine .bind (.group (.terminated (typeOutlines_keeps hG true))) fun inside hinside => ?_
  refine .bind (returnType_keeps hG false) fun result hresult => .pure ?_
  exact faithful_append.2 ⟨hinside, hresult⟩

/-- A word with angle brackets contributes what is inside them, one without them nothing. In an
expression the brackets count only behind two colons. -/
theorem segment_keeps (hG : G.Keep text) (inExpression : Bool) :
    Keeps text (segment G inExpression) := by
  refine .seq .ahead fun _ => .ite ?_ ?_
  · exact .seq .anyWord fun _ => .pure ⟨trivial, faithful_nil⟩
  · refine .seq (.identifierOr _) fun name => .seq .ahead fun ts => .ite ?_ ?_
    · refine .seq (.marksIf (by decide)) fun _ => ?_
      exact .bind (angleArguments_keeps hG) fun inside hinside => .pure ⟨trivial, hinside.2⟩
    · exact .pure ⟨trivial, faithful_nil⟩

/-- The loop carries the path read so far, and what it contributes stays faithful. The separator is
skipped after a look, which is why the question about it is taken apart. -/
theorem pathRest_keeps (hG : G.Keep text) (inExpression : Bool) {path : PathPhrase}
    (hpath : FaithfulTo text path) : Keeps text (pathRest G inExpression path) := by
  refine .loop hpath fun path hpath => .look fun i hi => .ite (fun hseparator => ?_) fun _ => ?_
  · have hahead : atMarks "::" i.rest = true := (Bool.and_eq_true_iff.1 hseparator).1
    refine (KeepsFrom.skip hi (.of_atMarks (by decide) hahead)).bind fun _ _ => ?_
    refine .bind (segment_keeps hG inExpression) fun s hs => .pure ?_
    exact faithful_append.2 ⟨hpath, hs.2⟩
  · exact .pure hi hpath

/-- The first word, and then those behind it. -/
theorem plainPath_keeps (hG : G.Keep text) (inExpression : Bool) :
    Keeps text (plainPath G inExpression) := by
  refine .seq (.marksIf (by decide)) fun _ => .bind (segment_keeps hG inExpression) fun s hs => ?_
  exact pathRest_keeps hG inExpression hs.2

/-- As for the other paths, with the separator read behind each word instead of before it. -/
theorem qualifiedRest_keeps (hG : G.Keep text) (inExpression : Bool) {path : PathPhrase}
    (hpath : FaithfulTo text path) : Keeps text (qualifiedRest G inExpression path) := by
  refine .loop hpath fun path hpath => .bind (segment_keeps hG inExpression) fun s hs => ?_
  have hmore := faithful_append.2 ⟨hpath, hs.2⟩
  exact .ifMarks (by decide) (.pure hmore) (.pure hmore)

/-- A self type contributes before the trait it is taken as, which may not be there, and before the
words of the path. -/
theorem path_keeps (hG : G.Keep text) (inExpression : Bool) : Keeps text (path G inExpression) := by
  refine .ifMarks (by decide) (.bind (hG.type true) fun self hself => ?_)
    (plainPath_keeps hG inExpression)
  refine .ifWord "as" (.bind (plainPath_keeps hG false) ?_) (.bind (.pure faithful_nil) ?_)
  all_goals
    intro trait htrait
    refine .seq (.marks (by decide)) fun _ => .seq (.marks (by decide)) fun _ => ?_
    exact qualifiedRest_keeps hG inExpression (faithful_append.2 ⟨hself, htrait⟩)

/-- Parentheses add what is in them to the path. -/
theorem withParenArguments_keeps (hG : G.Keep text) {path : PathPhrase}
    (hpath : FaithfulTo text path) : Keeps text (withParenArguments G path) := by
  refine .seq .ahead fun ts => .ite (.seq (.marksIf (by decide)) fun _ => ?_) (.pure hpath)
  exact .bind (parenArguments_keeps hG) fun arguments harguments =>
    .pure (faithful_append.2 ⟨hpath, harguments⟩)

/-- The inside of an invocation is skipped with its brackets, whatever tokens it has. A bracketed
sequence is one token, and so it is no part of a documentation comment. -/
theorem invocationRest_keeps : Keeps text invocationRest := by
  refine .seq (.marks (by decide)) fun _ => .look fun i hi =>
    .ite (fun hahead => ?_) fun _ => .ite (fun hahead => ?_) fun _ => .fail
  · exact (KeepsFrom.skip hi (.of_look hahead fun _ _ _ => rfl)).bind fun _ _ => .pure trivial
  · have hbare : Bare 1 i.rest := by
      rcases Bool.or_eq_true_iff.1 hahead with h | h
      · exact .of_look h fun _ _ _ => rfl
      · exact .of_look h fun _ _ _ => rfl
    exact (KeepsFrom.skip hi hbare).bind fun _ _ => .pure trivial

/-! ### Generic parameters, bounds and where clauses -/

/-- A lifetime in a list contributes nothing. -/
theorem lifetimeOutlines_keeps : Keeps text (do lifetime; return ([] : List Outline)) :=
  .seq .lifetime fun _ => .pure faithful_nil

/-- One case for each kind of parameter: a lifetime with its bounds, a type with bounds and a
default, a constant with its type and a default, and a parameter without a name. -/
theorem genericParameterRest_keeps (hG : G.Keep text) (unnamed : Bool) :
    Keeps text (genericParameterRest G unnamed) := by
  refine .look fun i hi => .ite (fun hlifetime => ?_) fun _ => .ite (fun hname => ?_) fun _ =>
    .ite (fun hconst => ?_) fun _ => .ite (fun hunnamed => ?_) fun _ => .fail
  · refine (KeepsFrom.skip hi (.of_look hlifetime fun _ _ _ => rfl)).bind fun _ _ => ?_
    refine .ifMarks (by decide) ?_ (.pure faithful_nil)
    exact .separated (by decide) lifetimeOutlines_keeps
  · -- The bounds are read only behind a colon, and a default in either case.
    refine (KeepsFrom.skip hi (.of_look hname fun _ _ _ => rfl)).bind fun _ _ => ?_
    refine .ifMarks (by decide)
      (.bind (.separated (by decide) (boundOutlines_keeps hG false true)) ?_)
      (.bind (.pure faithful_nil) ?_)
    all_goals
      intro bounds hbounds
      refine .ifMarks (by decide) (.bind (hG.type true) fun type htype => ?_) (.pure hbounds)
      exact .pure (faithful_append.2 ⟨hbounds, htype⟩)
  · refine (KeepsFrom.skip hi (.of_atWord hconst)).bind fun _ _ => ?_
    refine .seq .identifier fun _ => .seq (.marks (by decide)) fun _ => ?_
    refine .bind (hG.type true) fun type htype => .ifMarks (by decide) ?_ (.pure htype)
    exact .bind (constantArgument_keeps hG) fun value hvalue =>
      .pure (faithful_append.2 ⟨htype, hvalue⟩)
  · have hahead : atWord "_" i.rest = true := (Bool.and_eq_true_iff.1 hunnamed).2
    exact (KeepsFrom.skip hi (.of_atWord hahead)).bind fun _ _ => .pure faithful_nil

/-- The attributes of a parameter come before it. -/
theorem genericParameter_keeps (hG : G.Keep text) (unnamed : Bool) :
    Keeps text (genericParameter G unnamed) := by
  refine .bind outerAttributes_keeps fun attributes hattributes => ?_
  exact .bind (genericParameterRest_keeps hG unnamed) fun rest hrest =>
    .pure (faithful_append.2 ⟨hattributes, hrest⟩)

/-- The parameters in angle brackets, or none. -/
theorem generics_keeps (hG : G.Keep text) : Keeps text (generics G) := by
  refine .ifMarks (by decide) ?_ (.pure ⟨trivial, faithful_nil⟩)
  refine .bind (.enclosed (by decide) (genericParameter_keeps hG true)) fun inside hinside => ?_
  exact .seq (.marks (by decide)) fun _ => .pure ⟨trivial, hinside⟩

/-- The lifetimes are read like generic parameters. -/
theorem boundLifetimes_keeps (hG : G.Keep text) : Keeps text (boundLifetimes G) := by
  refine .seq (.word "for") fun _ => .seq (.marks (by decide)) fun _ => ?_
  refine .bind (.enclosed (by decide) (genericParameter_keeps hG false)) fun inside hinside => ?_
  exact .seq (.marks (by decide)) fun _ => .pure hinside

/-- Where `for` is not ahead, nothing is contributed. -/
theorem boundLifetimesIf_keeps (hG : G.Keep text) : Keeps text (boundLifetimesIf G) := by
  refine .seq .ahead fun _ => .ite ?_ (.pure ⟨trivial, faithful_nil⟩)
  exact .bind (boundLifetimes_keeps hG) fun inside hinside => .pure ⟨trivial, hinside⟩

/-- Names in angle brackets contribute nothing. -/
theorem capturedNames_keeps : Keeps text capturedNames := by
  refine .seq (.marks (by decide)) fun _ => .seq (.enclosed (by decide) ?_) fun _ =>
    .marks (by decide)
  refine .seq .lifetimeIf fun _ => .ite ?_ (.pure faithful_nil)
  exact .seq (.identifierOr _) fun _ => .pure faithful_nil

/-- A trait contributes its lifetimes and its path, unless `const` stands in front of it. The three
ways past the modifier, and then the two places for lifetimes, lead to the same rest. -/
theorem traitBound_keeps (hG : G.Keep text) (constant : Bool) :
    Keeps text (traitBound G constant) := by
  refine .bind (boundLifetimesIf_keeps hG) fun first hfirst => .seq .here fun start =>
    .seq .ahead fun ts => .ite (.seq (.group (.word "const")) fun _ => .ite (.failAt_bind start) ?_)
      (.ifWord "const" (.ite (.failAt_bind start) ?_) ?_)
  all_goals
    refine .seq .here fun modifier => .seq (.marksIf (by decide)) fun optional =>
      .ite (.bind (boundLifetimesIf_keeps hG) ?_) (.bind (.pure hfirst) ?_)
    all_goals
      intro lifetimes hlifetimes
      refine .bind (plainPath_keeps hG false) fun path hpath =>
        .bind (withParenArguments_keeps hG hpath) fun path hpath => ?_
      -- A question mark does not go together with lifetimes, on whichever side of it they stand.
      refine .ite (.failAt_bind modifier) (.ite (.pure faithful_nil) (.pure ?_))
      exact faithful_append.2 ⟨hlifetimes.2, hpath⟩

/-- Lifetimes and captured names contribute nothing, and a trait is read with and without
parentheses. -/
theorem bound_keeps (hG : G.Keep text) (captures constant : Bool) :
    Keeps text (bound G captures constant) := by
  have htrait : Keeps text (do return (⟨.trait, ← traitBound G constant⟩ : Bound)) :=
    .bind (traitBound_keeps hG constant) fun _ h => .pure h
  have hparen : Keeps text (do return (⟨.trait, ← group .paren (traitBound G constant)⟩ : Bound)) :=
    .bind (.group (traitBound_keeps hG constant)) fun _ h => .pure h
  refine .seq .here fun start => .look fun i hi => .ite (fun hlifetime => ?_) fun _ => .ifWord hi ?_
    (.ite (fun _ => hparen i hi) fun _ => htrait i hi)
  · exact (KeepsFrom.skip hi (.of_look hlifetime fun _ _ _ => rfl)).bind fun _ _ =>
      .pure faithful_nil
  · exact .seq capturedNames_keeps fun _ => .ite (.failAt_bind start) (.pure faithful_nil)

/-- The loop carries the bounds read so far. -/
theorem bounds_keeps (hG : G.Keep text) (plus captures constant : Bool) :
    Keeps text (bounds G plus captures constant) := by
  refine .loop faithful_nil fun read hread => .bind (hG.bound captures constant) fun b hb => ?_
  have hmore := faithful_append.2 ⟨hread, faithful_singleton hb⟩
  refine .seq .ahead fun _ => .ite (.seq (.marks (by decide)) fun _ => ?_) (.pure hmore)
  exact .seq .ahead fun _ => .ite (.pure hmore) (.pure hmore)

/-- The bounds of a list contribute one after the other. -/
theorem traitBounds_keeps (hG : G.Keep text) (start : Position) (plus captures constant : Bool) :
    Keeps text (traitBounds G start plus captures constant) := by
  refine .bind (bounds_keeps hG plus captures constant) fun read hread =>
    .ite (.failAt_bind start) (.pure ?_)
  intro o ho
  obtain ⟨b, hb, hmem⟩ := List.mem_flatMap.1 ho
  exact hread b hb o hmem

/-- A lifetime with its bounds contributes nothing. A type contributes after the lifetimes that are
bound for it and before its own bounds. -/
theorem predicate_keeps (hG : G.Keep text) : Keeps text (predicate G) := by
  refine .look fun i hi => .ite (fun hlifetime => ?_) fun _ => .of hi ?_
  · obtain ⟨hahead, hcolon⟩ := Bool.and_eq_true_iff.1 hlifetime
    have hbare : Bare 2 i.rest :=
      .add (.of_look hahead fun _ _ _ => rfl) (.of_atMarks (by decide) hcolon)
    refine (KeepsFrom.skip hi hbare).bind fun _ _ => ?_
    exact .separated (by decide) lifetimeOutlines_keeps
  · refine .bind (boundLifetimesIf_keeps hG) fun lifetimes hlifetimes =>
      .bind (hG.type true) fun type htype => .seq (.marks (by decide)) fun _ => ?_
    refine .bind (.separated (by decide) (boundOutlines_keeps hG false true))
      fun bounds hbounds => ?_
    exact .pure (faithful_append.2 ⟨faithful_append.2 ⟨hlifetimes.2, htype⟩, hbounds⟩)

/-- The predicates behind `where`, or none. -/
theorem whereClause_keeps (hG : G.Keep text) : Keeps text (whereClause G) := by
  refine .ifWord "where" ?_ (.pure ⟨trivial, faithful_nil⟩)
  refine .seq .ahead fun _ => .ite .fail_bind ?_
  exact .bind (.separated (by decide) (predicate_keeps hG)) fun predicates h => .pure ⟨trivial, h⟩

/-! ### Types -/

/-- The loop carries what the bounds contributed so far. -/
theorem furtherBounds_keeps (hG : G.Keep text) : Keeps text (furtherBounds G) := by
  refine .loop faithful_nil fun found hfound => .ifMarks (by decide) ?_ (.pure hfound)
  exact .bind (hG.bound false false) fun b hb => .pure (faithful_append.2 ⟨hfound, hb⟩)

/-- The same, with a flag that says nothing about the text. -/
theorem pathBounds_keeps (hG : G.Keep text) : Keeps text (pathBounds G) := by
  refine .loop (faithful_mk.2 ⟨trivial, faithful_nil⟩) fun state hstate => ?_
  refine .ifMarks (by decide) (.seq .ahead fun _ => .ite ?_ (.pure ⟨trivial, hstate.2⟩))
    (.pure hstate)
  exact .bind (hG.bound false false) fun b hb =>
    .pure ⟨trivial, faithful_append.2 ⟨hstate.2, hb⟩⟩

/-- Each form of the inside keeps what it read: bounds, one type, or the elements of a tuple. The
forms are told by the first token and by a comma behind the first type. -/
theorem parenthesizedTypes_keeps (hG : G.Keep text) : Keeps text (parenthesizedTypes G) := by
  refine .seq .here fun start => .seq .ahead fun ts =>
    .ite (.pure faithful_nil) (.ite ?_ (.ite ?_ ?_))
  · exact .bind (traitBounds_keeps hG start true false false) fun bounds hbounds => .pure hbounds
  · exact .bind (traitBound_keeps hG true) fun bounds hbounds => .pure hbounds
  · refine .bind (hG.type true) fun first hfirst => .ifMarks (by decide) ?_ (.pure hfirst)
    refine .bind (.terminated (typeOutlines_keeps hG true)) fun others hothers => .pure ?_
    exact faithful_append.2 ⟨hfirst, hothers⟩

/-- What stands in the parentheses, and the bounds behind them if there can be any. Which of the
three forms the inside has decides on that. -/
theorem parenType_keeps (hG : G.Keep text) (plus : Bool) : Keeps text (parenType G plus) := by
  refine .bind (.group (parenthesizedTypes_keeps hG)) fun inside hinside => ?_
  cases inside with
  | closed outlines => exact .pure hinside
  | optional outlines =>
      refine .seq .ahead fun _ => .bind (furtherBounds_keeps hG) fun further hfurther => .pure ?_
      exact faithful_append.2 ⟨hinside, hfurther⟩
  | single first =>
      refine .seq .ahead fun _ => .ite ?_ (.pure hinside)
      exact .bind (furtherBounds_keeps hG) fun further hfurther =>
        .pure (faithful_append.2 ⟨hinside, hfurther⟩)

/-- The name of a calling convention is a literal token, but it is skipped and no node comes of
it. -/
theorem abiIf_keeps : Keeps text abiIf := by
  refine .ifWord "extern" (.look fun i hi => ?_) (.pure trivial)
  exact .skipWhen hi (fun hahead => .of_look hahead fun _ _ _ => rfl) (.pure trivial)

/-- The name and the colon in front of a type. Neither is a hash sign, so both can be skipped. -/
theorem bare_named {ts : List Token} {isSelf : Bool}
    (hself : isSelf = true → atWord "self" ts = true)
    (h : ((atIdentifier ts || atWord "_" ts || isSelf) && atColon (ts.drop 1)) = true) :
    Bare 2 ts := by
  obtain ⟨hname, hcolon⟩ := Bool.and_eq_true_iff.1 h
  refine .add ?_ (.of_look hcolon fun _ _ _ => rfl)
  rcases Bool.or_eq_true_iff.1 hname with hname | hname
  · rcases Bool.or_eq_true_iff.1 hname with hname | hname
    · exact .of_look hname fun _ _ _ => rfl
    · exact .of_atWord hname
  · exact .of_atWord (hself hname)

/-- A parameter may skip a `mut`, a name with a colon, or both words of a mutable receiver. What is
skipped are words and colons that a look has found there. -/
theorem functionTypeParameter_keeps (hG : G.Keep text) (receiver : Bool) :
    Keeps text (functionTypeParameter G receiver) := by
  refine .look fun i hi => .skipWhen hi (fun hmutable => ?_) (.look fun i hi =>
    .skipWhen hi (bare_named fun hself => ?_) (.look fun i hi => .ite (fun hmutable => ?_) fun _ =>
      .ite (fun _ => ?_) fun _ => ?_))
  · exact .of_atWord (Bool.and_eq_true_iff.1 (Bool.and_eq_true_iff.1 hmutable).1).2
  · exact (Bool.and_eq_true_iff.1 hself).2
  · obtain ⟨hmutable, hself⟩ := Bool.and_eq_true_iff.1 hmutable
    have hbare : Bare 2 i.rest :=
      .add (.of_atWord (Bool.and_eq_true_iff.1 hmutable).2) (.of_atWord hself)
    exact (KeepsFrom.skip hi hbare).bind fun _ _ => .pure faithful_nil
  · exact .of hi (.seq (.word "self") fun _ => .pure faithful_nil)
  · exact .of hi (.bind (hG.type true) fun type htype => .pure (faithful_ite faithful_nil htype))

/-- The loop carries what was found so far, with a flag for the first parameter. The dots of a
variadic one end it. -/
theorem functionTypeParameters_keeps (hG : G.Keep text) :
    Keeps text (functionTypeParameters G) := by
  refine .loop (faithful_mk.2 ⟨trivial, faithful_nil⟩) fun state hstate => ?_
  refine .ifEnd (.pure hstate.2) (.bind outerAttributes_keeps fun attributes hattributes => ?_)
  have hfound := faithful_append.2 ⟨hstate.2, hattributes⟩
  refine .look fun i hi =>
    .ite (fun hvariadic => .ahead (.skipWhen hi (fun hnamed => ?_) ?_)) fun _ =>
    .of hi (.bind (functionTypeParameter_keeps hG _) fun parameter hparameter => ?_)
  · -- The dots come behind a name and a colon.
    rcases Bool.or_eq_true_iff.1 hvariadic with hdots | hvariadic
    · rw [hdots] at hnamed
      cases hnamed
    · obtain ⟨hvariadic, -⟩ := Bool.and_eq_true_iff.1 hvariadic
      obtain ⟨hname, hcolon⟩ := Bool.and_eq_true_iff.1 hvariadic
      refine .add ?_ (.of_atMarks (by decide) hcolon)
      rcases Bool.or_eq_true_iff.1 hname with hname | hname
      · exact .of_look hname fun _ _ _ => rfl
      · exact .of_atWord hname
  · exact .seq (.marks (by decide)) fun _ => .seq (.marksIf (by decide)) fun _ => .pure hfound
  · have hmore := faithful_append.2 ⟨hfound, hparameter⟩
    exact .ifEnd (.pure hmore) (.seq (.marks (by decide)) fun _ => .pure ⟨trivial, hmore⟩)

/-- The parameters first, then the result type. -/
theorem functionType_keeps (hG : G.Keep text) : Keeps text (functionType G) := by
  refine .seq (.wordIf "unsafe") fun _ => .seq abiIf_keeps fun _ => .seq (.word "fn") fun _ => ?_
  refine .bind (.group (functionTypeParameters_keeps hG)) fun inside hinside => ?_
  exact .bind (returnType_keeps hG false) fun result hresult =>
    .pure (faithful_append.2 ⟨hinside, hresult⟩)

/-- A path alone contributes what it does. As the first of several bounds it comes behind the
lifetimes bound for it and before the others. -/
theorem pathType_keeps (hG : G.Keep text) (plus : Bool) {lifetimes : Option (List Outline)}
    (hlifetimes : FaithfulTo text lifetimes) : Keeps text (pathType G plus lifetimes) := by
  refine .bind (path_keeps hG false) fun path hpath =>
    .bind (withParenArguments_keeps hG hpath) fun path hpath => .ite (.pure hpath) ?_
  refine .seq .ahead fun _ => .ite (.seq invocationRest_keeps fun _ => .pure faithful_nil) ?_
  refine .seq .ahead fun _ => .ite ?_ (.pure hpath)
  refine .ite (.bind (pathBounds_keeps hG) ?_)
    (.bind (.pure (faithful_mk.2 ⟨trivial, faithful_nil⟩)) ?_)
  all_goals
    intro further hfurther
    refine .pure (faithful_append.2 ⟨faithful_append.2 ⟨?_, hpath⟩, hfurther.2⟩)
    exact faithful_getD hlifetimes

/-- An array has an expression for its length, which is where types lead back to expressions. -/
theorem bracketType_keeps (hG : G.Keep text) : Keeps text (bracketType G) := by
  refine .group (.bind (hG.type true) fun element helement =>
    .ifMarks (by decide) ?_ (.pure helement))
  exact .bind (hG.expression true) fun length hlength =>
    .pure (faithful_append.2 ⟨helement, Expr.faithful_outlines hlength⟩)

/-- The first tokens decide which form of a type is read, in the order in which the production asks.
The lifetimes that `for` binds contribute only in front of function types and paths. -/
theorem type_keeps (hG : G.Keep text) (plus : Bool) : Keeps text (type G plus) := by
  refine .bind (boundLifetimesIf_keeps hG) fun lifetimes hlifetimes => .seq .here fun start =>
    .seq .ahead fun ts => .ite .fail_bind ?_
  refine .ite (parenType_keeps hG plus) (.ite ?_ (.ite ?_ (.ifWord "dyn" ?_ (.ite ?_ ?_))))
  · exact .bind (functionType_keeps hG) fun inside hinside =>
      .pure (faithful_append.2 ⟨hlifetimes.2, hinside⟩)
  · exact pathType_keeps hG plus (faithful_ite (faithful_some.2 hlifetimes.2) faithful_none)
  · refine .seq (.marksIf (by decide)) fun silent =>
      .bind (traitBounds_keeps hG start plus false false) fun bounds hbounds => ?_
    exact .pure (faithful_ite faithful_nil hbounds)
  · exact .bind (bracketType_keeps hG) fun inside hinside => .pure hinside
  · refine .ifMarks (by decide) ?_ (.ifMarks (by decide) ?_ (.ifMarks (by decide) ?_
      (.ifWord "impl" ?_ (.ifWord "_" ?_ (.ite ?_ .fail)))))
    · -- A pointer. The second word is read only if the first one is not there.
      refine .seq (.wordIf "const") fun _ => .ite (.seq (.word "mut") fun _ => ?_) ?_
      all_goals exact .bind (hG.type false) fun target htarget => .pure htarget
    · refine .seq .lifetimeIf fun _ => .seq (.wordIf "mut") fun _ => ?_
      exact .bind (hG.type false) fun target htarget => .pure htarget
    · exact .pure faithful_nil
    · exact .bind (traitBounds_keeps hG start plus true true) fun bounds hbounds => .pure hbounds
    · exact .pure faithful_nil
    · exact .bind (traitBounds_keeps hG start plus false false) fun bounds hbounds => .pure hbounds

end Arborist.Grammar
