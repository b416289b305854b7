import Arborist.Grammar.File
import Arborist.Proofs.Grammar.Expression

/-!
# `Arborist.Proofs.Grammar.Item`: functions, items and files keep to the text

The last productions, and what follows for all of them together: at every depth the productions keep
to the text, and so the outline of a text is faithful to it (`outline_faithful`).
-/

set_option autoImplicit false

namespace Arborist.Grammar

open Source (Position Span Token Reads)
open Grammar.Parser

variable {text : List Char} {G : Productions} {attributes vis : List Outline}

/-! ### Functions -/

/-- A receiver contributes its type if it has one. Behind a reference no type can follow. -/
theorem receiver_keeps (hG : G.Keep text) : Keeps text (receiver G) := by
  refine .seq (.marksIf (by decide)) fun reference =>
    .ite (.seq .lifetimeIf fun _ => ?_) ?_
  all_goals
    refine .seq (.wordIf "mut") fun _ => .seq .here fun place => .seq (.word "self") fun _ => ?_
    refine .seq .ahead fun _ => .ite (.seq (.marks (by decide)) fun _ => ?_)
      (.pure ⟨trivial, faithful_nil⟩)
    exact .bind (hG.type true) fun type htype => .pure ⟨trivial, htype⟩

instance : Faithful Parameter := ⟨fun text parameter => match parameter with
  | .receiver _ outlines => FaithfulTo text outlines
  | .typed _ outlines => FaithfulTo text outlines
  | .variadic outlines => FaithfulTo text outlines⟩

/-- A receiver is tried first and given up without a trace. Otherwise a parameter contributes its
pattern and its type, or only one of them. -/
theorem parameterRest_keeps (hG : G.Keep text) : Keeps text (parameterRest G) := by
  refine .bind (.attempt (receiver_keeps hG)) fun self? hself? => ?_
  cases self? with
  | some self =>
      have hself := faithful_some.1 hself?
      exact .pure hself.2
  | none =>
      refine .seq .ahead fun ts => .ite (.bind (hG.type true) fun type htype => .pure htype) ?_
      refine .bind hG.pattern fun pattern hpattern => .seq (.marks (by decide)) fun _ => ?_
      have hpattern := Pattern.faithful_outlines hpattern
      refine .ifMarks (by decide) (.pure hpattern) (.bind (hG.type true) fun type htype => ?_)
      exact .pure (faithful_append.2 ⟨hpattern, htype⟩)

/-- A parameter that was read is added to those before it. -/
theorem parameters_next_keeps {found : List Outline} (hfound : FaithfulTo text found)
    {parameter : Outline} (hparameter : FaithfulTo text parameter) :
    Keeps text (parameters.next found parameter) := by
  have hmore := faithful_append.2 ⟨hfound, faithful_singleton hparameter⟩
  exact .ifEnd (.pure hmore) (.seq (.marks (by decide)) fun _ => .pure hmore)

/-- The loop carries the parameters read so far, each of which is a node around its attributes and
its inside. Dots end it, and what is in front of them is passed on without a node. -/
theorem parameters_keeps (hG : G.Keep text) : Keeps text (parameters G) := by
  refine .loop faithful_nil fun found hfound => .ifEnd (.pure hfound) (.seq .here fun start => ?_)
  refine .bind outerAttributes_keeps fun attributes hattributes => ?_
  have hmore := faithful_append.2 ⟨hfound, hattributes⟩
  refine .ifMarks (by decide) ?_ (.bind (parameterRest_keeps hG) fun parameter hparameter => ?_)
  · exact .seq .atEnd fun _ => .ite (.seq (.marks (by decide)) fun _ => .pure hmore) (.pure hmore)
  · cases parameter with
    -- The last parameter, with or without a comma behind it.
    | variadic outlines =>
        have hall := faithful_append.2 ⟨hmore, hparameter⟩
        exact .seq .atEnd fun _ => .ite (.seq (.marks (by decide)) fun _ => .pure hall) (.pure hall)
    | receiver place outlines =>
        refine .ite (.failAt_bind place) (.seq (.since start) fun _ => ?_)
        exact parameters_next_keeps hfound
          (faithful_node (by decide) (faithful_append.2 ⟨hattributes, hparameter⟩))
    | typed name outlines =>
        refine .seq (.since start) fun _ => ?_
        exact parameters_next_keeps hfound
          (faithful_node (by decide) (faithful_append.2 ⟨hattributes, hparameter⟩))

instance : Faithful Signature := ⟨fun text signature => FaithfulTo text signature.outlines⟩

/-- The words in front of `fn` contribute nothing. -/
theorem functionWords_keeps (safe : Bool) : Keeps text (functionWords safe) := by
  refine .seq (.wordIf "const") fun _ => .seq (.wordIf "async") fun _ =>
    .ite (.seq (.wordIf "safe") ?_) (.seq (.pure trivial) ?_)
  all_goals
    refine fun isSafe => .ite (.seq (.wordIf "unsafe") fun _ => ?_) ?_
    all_goals exact .seq abiIf_keeps fun _ => .pure trivial

/-- A question about the signature ahead leaves the input as it is, because the input that the words
leave is thrown away. -/
theorem eq_of_atSignature {i j : Input} {safe found : Bool}
    (h : atSignature safe i = .ok (found, j)) : j = i := by
  rw [atSignature] at h
  split at h
  · cases h
    rfl
  · cases h
    rfl

/-- Therefore it keeps to the text. -/
theorem atSignature_keeps (safe : Bool) : Keeps text (atSignature safe) := by
  intro i hi found j h
  obtain rfl := eq_of_atSignature h
  exact ⟨trivial, hi⟩

/-- What is known of the input can still be used behind such a question, in both branches, since the
question moves over no token. -/
theorem KeepsFrom.ifSignature {α : Type} [Faithful α] {p q : Parser α} {i : Input} {safe : Bool}
    (hp : KeepsFrom text i p) (hq : KeepsFrom text i q) :
    KeepsFrom text i (atSignature safe >>= fun found => if found = true then p else q) := by
  intro a j h
  obtain ⟨found, k, hfound, hrest⟩ := bind_eq_ok h
  obtain rfl := eq_of_atSignature hfound
  split at hrest
  · exact hp a j hrest
  · exact hq a j hrest

/-- Generic parameters and where clause first, then parameters and result type: this is the order of
the nodes and not that of the text. -/
theorem signatureRest_keeps (hG : G.Keep text) : Keeps text (signatureRest G) := by
  refine .seq (.word "fn") fun _ => .seq .identifier fun name =>
    .bind (generics_keeps hG) fun generic hgeneric => ?_
  refine .bind (.group (parameters_keeps hG)) fun inputs hinputs => ?_
  refine .bind (returnType_keeps hG true) fun output houtput => ?_
  refine .bind (whereClause_keeps hG) fun clause hclause => .pure ?_
  exact faithful_append.2 ⟨faithful_append.2
    ⟨faithful_append.2 ⟨hgeneric.2, hclause.2⟩, hinputs⟩, houtput⟩

/-- A signature with the words in front of it. -/
theorem signature_keeps (hG : G.Keep text) : Keeps text (signature G) :=
  .seq (functionWords_keeps false) fun _ => signatureRest_keeps hG

/-- A function is a node around attributes, visibility, signature and body. It is no literal, so it
is faithful if all of these are. -/
theorem functionNode_keeps (start : Position) {visibility body : List Outline}
    {signature : Signature} (hattributes : FaithfulTo text attributes)
    (hvisibility : FaithfulTo text visibility) (hsignature : FaithfulTo text signature)
    (hbody : FaithfulTo text body) :
    Keeps text (functionNode start attributes visibility signature body) := by
  have hsignature : FaithfulTo text signature.outlines := hsignature
  refine .seq (.since start) fun _ => .pure (faithful_node (by decide) ?_)
  simp [hattributes, hvisibility, hsignature, hbody]

/-! ### Fields and variants -/

/-- A field is a node around its attributes, its visibility and its type. Fields in braces instead
of a type are read and contribute nothing. -/
theorem namedField_keeps (hG : G.Keep text) : Keeps text (namedField G) := by
  refine .seq .here fun start => .bind outerAttributes_keeps fun attributes hattributes => ?_
  refine .bind visibility_keeps fun vis hvis => .seq .ahead fun _ =>
    .seq (.identifierOr _) fun name => .seq (.marks (by decide)) fun _ => ?_
  have hfield {type : List Outline} (htype : FaithfulTo text type) : Keeps text (do
      return [Outline.node .field (← since start) (some name) (attributes ++ vis ++ type)]) := by
    refine .seq (.since start) fun _ => .pure (faithful_singleton (faithful_node (by decide) ?_))
    exact faithful_append.2 ⟨faithful_append.2 ⟨hattributes, hvis⟩, htype⟩
  refine .look fun i hi => .ite (fun hfields => ?_) fun _ => .of hi ?_
  · -- Fields in braces, behind `struct` or `union`.
    have hword := (Bool.and_eq_true_iff.1 hfields).2
    have hbare : Bare 1 i.rest := by
      rcases Bool.or_eq_true_iff.1 hword with hword | hword
      · exact .of_atWord hword
      · exact .of_atWord (Bool.and_eq_true_iff.1 hword).1
    refine (KeepsFrom.skip hi hbare).bind fun _ _ => .bind hG.namedFields fun _ _ => ?_
    exact .bind (.pure faithful_nil) fun _ htype => hfield htype
  · exact .bind (hG.type true) fun type htype => .bind (.pure htype) fun _ htype => hfield htype

/-- Fields in braces, between commas. -/
theorem namedFields_keeps (hG : G.Keep text) : Keeps text (namedFields G) :=
  .group (.terminated (namedField_keeps hG))

/-- The same without a name. -/
theorem positionalField_keeps (hG : G.Keep text) : Keeps text (positionalField G) := by
  refine .seq .here fun start => .bind outerAttributes_keeps fun attributes hattributes => ?_
  refine .bind visibility_keeps fun vis hvis => .bind (hG.type true) fun type htype => ?_
  refine .seq (.since start) fun _ => .pure (faithful_singleton (faithful_node (by decide) ?_))
  exact faithful_append.2 ⟨faithful_append.2 ⟨hattributes, hvis⟩, htype⟩

/-- Fields in parentheses, between commas. -/
theorem positionalFields_keeps (hG : G.Keep text) : Keeps text (positionalFields G) :=
  .group (.terminated (positionalField_keeps hG))

/-- The where clause contributes before the fields, also where it stands behind them. -/
theorem structRest_keeps (hG : G.Keep text) : Keeps text (structRest G) := by
  refine .bind (whereClause_keeps hG) fun clause hclause => .seq .ahead fun ts =>
    .ite ?_ (.ite ?_ (.seq (.marks (by decide)) fun _ => .pure hclause.2))
  · refine .bind (positionalFields_keeps hG) fun fields hfields => ?_
    refine .bind (whereClause_keeps hG) fun clause hclause => .seq (.marks (by decide)) fun _ => ?_
    exact .pure (faithful_append.2 ⟨hclause.2, hfields⟩)
  · exact .bind hG.namedFields fun fields hfields => .pure (faithful_append.2 ⟨hclause.2, hfields⟩)

/-- A variant is a node around its attributes, its fields and its value. There are three kinds of
fields and a value or none, which makes six ways to the same end. -/
theorem variant_keeps (hG : G.Keep text) : Keeps text (variant G) := by
  refine .seq .here fun start => .bind outerAttributes_keeps fun attributes hattributes => ?_
  refine .seq visibility_keeps fun _ => .seq .here fun own => .seq .identifier fun name =>
    .seq .ahead fun ts => .ite (.bind hG.namedFields ?_)
      (.ite (.bind (positionalFields_keeps hG) ?_) (.bind (.pure faithful_nil) ?_))
  all_goals
    intro fields hfields
    refine .ifMarks (by decide) (.bind (hG.expression true) fun value hvalue =>
      .bind (.pure (Expr.faithful_outlines hvalue)) ?_) (.bind (.pure faithful_nil) ?_)
    all_goals
      refine fun value hvalue => .seq (.since _) fun _ => .pure ?_
      refine faithful_singleton (faithful_node (by decide) ?_)
      exact faithful_append.2 ⟨faithful_append.2 ⟨hattributes, hfields⟩, hvalue⟩

/-! ### Declarations of types and constants -/

instance : Faithful TypeDeclaration := ⟨fun text declaration =>
  FaithfulTo text declaration.generics ∧ FaithfulTo text declaration.bounds ∧
    FaithfulTo text declaration.definition⟩

/-- A type declaration keeps apart what its generics, its bounds and its definition contribute,
since not every item uses all three. -/
theorem typeDeclaration_keeps (hG : G.Keep text) (before after : Bool) :
    Keeps text (typeDeclaration G before after) := by
  refine .seq (.word "type") fun _ => .seq .identifier fun name =>
    .bind (generics_keeps hG) fun generic hgeneric => ?_
  have hnone : FaithfulTo text (false, ([] : List Outline)) := ⟨trivial, faithful_nil⟩
  -- The bounds, both where clauses and the definition may each be there or not.
  refine .ifMarks (by decide)
    (.bind (.enclosed (by decide) (boundOutlines_keeps hG false true)) fun bounds hbounds =>
      .bind (.pure (faithful_some.2 hbounds)) ?_) (.bind (.pure faithful_none) ?_)
  all_goals
    refine fun bounds hbounds => .ite (.bind (whereClause_keeps hG) ?_) (.bind (.pure hnone) ?_)
    all_goals
      refine fun early hearly => .ifMarks (by decide) (.bind (hG.type true) fun type htype =>
        .bind (.pure (faithful_some.2 htype)) ?_) (.bind (.pure faithful_none) ?_)
      all_goals
        refine fun definition hdefinition =>
          .ite (.bind (whereClause_keeps hG) ?_) (.bind (.pure hnone) ?_)
        all_goals
          intro late hlate
          have hgenerics := faithful_append.2
            ⟨faithful_append.2 ⟨hgeneric.2, hearly.2⟩, hlate.2⟩
          exact .seq (.marks (by decide)) fun _ => .pure ⟨hgenerics, hbounds, hdefinition⟩

instance : Faithful ConstantDeclaration := ⟨fun text declaration =>
  FaithfulTo text declaration.type ∧ FaithfulTo text declaration.value⟩

/-- The same for constants. Generic parameters and a where clause are read and forgotten, but for
whether there were any. -/
theorem constantDeclaration_keeps (hG : G.Keep text) : Keeps text (constantDeclaration G) := by
  refine .seq (.identifierOr _) fun name => .seq (generics_keeps hG) fun _ =>
    .seq (.marks (by decide)) fun _ => .bind (hG.type true) fun type htype => ?_
  refine .ifMarks (by decide) (.bind (hG.expression true) fun value hvalue =>
    .bind (.pure (faithful_some.2 (Expr.faithful_outlines hvalue))) ?_)
    (.bind (.pure faithful_none) ?_)
  all_goals
    refine fun value hvalue => .seq (whereClause_keeps hG) fun _ => ?_
    exact .seq (.marks (by decide)) fun _ => .pure ⟨htype, hvalue⟩

/-- An invocation contributes nothing; its name and its brackets are skipped. Braces end it by
themselves, and other brackets need a semicolon behind them. -/
theorem itemInvocation_keeps (named : Bool) : Keeps text (itemInvocation named) := by
  refine .seq simplePath_keeps fun _ => .seq (.marks (by decide)) fun _ => ?_
  refine .look fun i hi => .ahead (.skipWhen hi (fun hname => ?_) (.look fun i hi => ?_))
  · rcases Bool.or_eq_true_iff.1 (Bool.and_eq_true_iff.1 hname).2 with hname | hname
    · exact .of_look hname fun _ _ _ => rfl
    · exact .of_atWord hname
  · refine .ite (fun hbraces => .skip hi (.of_look hbraces fun _ _ _ => rfl)) fun _ =>
      .ite (fun hbrackets => ?_) fun _ => .fail
    have hbare : Bare 1 i.rest := by
      rcases Bool.or_eq_true_iff.1 hbrackets with h | h
      · exact .of_look h fun _ _ _ => rfl
      · exact .of_look h fun _ _ _ => rfl
    exact (KeepsFrom.skip hi hbare).bind fun _ _ => .marks (by decide)

/-- A body is a block, with its inner attributes apart. -/
theorem functionBody_keeps (hG : G.Keep text) : Keeps text (functionBody G) :=
  .bind (blockWithAttributes_keeps hG) fun _ hparts =>
    .pure ⟨hparts.1, faithful_singleton hparts.2⟩

/-! ### Members -/

/-- A member of a foreign module is a function, a static, a type or an invocation. Those that a
compiler would refuse are read to their end and contribute nothing, which is what `faithful_ite` is
for. -/
theorem foreignItem_keeps (hG : G.Keep text) : Keeps text (foreignItem G) := by
  refine .bind outerAttributes_keeps fun attributes hattributes => ?_
  refine .bind visibility_keeps fun vis hvis => ?_
  have hhead := faithful_append.2 ⟨hattributes, hvis⟩
  refine .look fun i hi => .ifSignature (.of hi ?_) (.ite (fun hstatic => ?_) fun _ => .of hi ?_)
  · -- A function with a body contributes nothing here.
    refine .seq (functionWords_keeps true) fun safe => ?_
    refine .bind (signatureRest_keeps hG) fun signature hsignature => .seq .ahead fun _ => ?_
    refine .ite (.seq (functionBody_keeps hG) fun _ => .pure faithful_nil) ?_
    refine .seq (.marks (by decide)) fun _ => .pure (faithful_ite faithful_nil ?_)
    exact faithful_append.2 ⟨hhead, hsignature⟩
  · refine .skipWhen hi (fun hmarked => ?_) ?_
    · -- The word in front of `static` is skipped because it is one of two.
      have hmarked : atWord "static" i.rest = false := by simpa using hmarked
      rw [hmarked, Bool.false_or] at hstatic
      exact .of_look (Bool.and_eq_true_iff.1 hstatic).1 fun _ _ _ => rfl
    · refine .seq (.word "static") fun _ => .seq (.wordIf "mut") fun _ => .seq .identifier fun _ =>
        .seq (.marks (by decide)) fun _ => .bind (hG.type true) fun type htype => ?_
      refine .seq (.marksIf (by decide)) fun valued =>
        .ite (.seq (hG.expression true) fun _ => ?_) ?_
      all_goals
        refine .seq (.marks (by decide)) fun _ => .pure (faithful_ite faithful_nil ?_)
        exact faithful_append.2 ⟨hhead, htype⟩
  · refine .ite (.bind (typeDeclaration_keeps hG true true) fun declaration hdeclaration => ?_)
      (.ite (.seq (itemInvocation_keeps false) fun _ => .pure hattributes) .fail)
    exact .pure (faithful_ite faithful_nil (faithful_append.2 ⟨hhead, hdeclaration.1⟩))

/-- A constant of a trait may lack a value, and a generic one contributes nothing. -/
theorem traitConstant_keeps (hG : G.Keep text) (hattributes : FaithfulTo text attributes) :
    Keeps text (traitConstant G attributes) := by
  refine .bind (constantDeclaration_keeps hG) fun declaration hdeclaration => .pure ?_
  obtain ⟨htype, hvalue⟩ := hdeclaration
  refine faithful_ite faithful_nil ?_
  exact faithful_append.2 ⟨faithful_append.2 ⟨hattributes, htype⟩, faithful_getD hvalue⟩

/-- A member of a trait contributes only without a visibility and `default`. This is decided once
behind all of its forms (`hkept`). -/
theorem traitItem_keeps (hG : G.Keep text) : Keeps text (traitItem G) := by
  refine .seq .here fun start => .bind outerAttributes_keeps fun attributes hattributes => ?_
  refine .bind visibility_keeps fun vis hvis => .seq (.wordIf "default") fun default =>
    .seq .ahead fun ts => .seq (atSignature_keeps false) fun _ => .seq (.wordIf "const") fun _ => ?_
  have hkept (outlines : List Outline) (h : FaithfulTo text outlines) : Keeps text
      (pure (if (vis.isEmpty && !default) = true then outlines else []) : Parser (List Outline)) :=
    .pure (faithful_ite h faithful_nil)
  refine .ite ?_ (.ite (.bind (traitConstant_keeps hG hattributes) hkept)
    (.ite ?_ (.ite ?_ .fail_bind)))
  · -- A function, with a body or only a semicolon.
    have hnone : FaithfulTo text (([], []) : List Outline × List Outline) :=
      ⟨faithful_nil, faithful_nil⟩
    refine .bind (signature_keeps hG) fun signature hsignature => .seq .ahead fun _ =>
      .ite (.bind (functionBody_keeps hG) ?_)
        (.seq (.marks (by decide)) fun _ => .bind (.pure hnone) ?_)
    all_goals
      intro parts hparts
      have hhead := faithful_append.2 ⟨hattributes, hparts.1⟩
      refine .bind (functionNode_keeps start hhead faithful_nil hsignature hparts.2) ?_
      exact fun function hfunction => .bind (.pure (faithful_singleton hfunction)) hkept
  · refine .bind (typeDeclaration_keeps hG false true) fun declaration hdeclaration =>
      .bind (.pure ?_) hkept
    obtain ⟨hgenerics, hbounds, hdefinition⟩ := hdeclaration
    have hbounds := faithful_getD hbounds
    have hdefinition := faithful_getD hdefinition
    simp [hattributes, hgenerics, hbounds, hdefinition]
  · exact .seq (itemInvocation_keeps false) fun _ => .bind (.pure hattributes) hkept

/-- A function with a body; without one it contributes nothing. Attributes inside the body are put
behind those in front of the function. -/
theorem functionItem_keeps (hG : G.Keep text) (start : Position)
    (hattributes : FaithfulTo text attributes) (hvis : FaithfulTo text vis) : Keeps text (do
      let signature ← signature G
      if ← marksIf ";" then return []
      let (inner, body) ← functionBody G
      return [← functionNode start (attributes ++ inner) vis signature body]) := by
  refine .bind (signature_keeps hG) fun signature hsignature =>
    .ifMarks (by decide) (.pure faithful_nil) (.bind (functionBody_keeps hG) fun parts hparts => ?_)
  have hhead := faithful_append.2 ⟨hattributes, hparts.1⟩
  exact .bind (functionNode_keeps start hhead hvis hsignature hparts.2) fun function hfunction =>
    .pure (faithful_singleton hfunction)

/-- A member of an implementation: a function, a constant, a type or an invocation. Constants and
types contribute only if they have a value. -/
theorem implItem_keeps (hG : G.Keep text) : Keeps text (implItem G) := by
  refine .seq .here fun start => .bind outerAttributes_keeps fun attributes hattributes => ?_
  refine .bind visibility_keeps fun vis hvis => .seq .ahead fun ts =>
    .ite (.seq (.pure trivial) ?_) (.seq (.wordIf "default") ?_)
  -- The word `default` may stand in front, which changes nothing in what follows.
  all_goals
    refine fun default => .seq .ahead fun ts => .seq (atSignature_keeps false) fun _ =>
      .ite (functionItem_keeps hG start hattributes hvis) (.ifWord "const" ?_ (.ite ?_
        (.ite (.seq (itemInvocation_keeps false) fun _ => .pure hattributes) .fail)))
    · refine .bind (constantDeclaration_keeps hG) fun declaration hdeclaration => ?_
      obtain ⟨htype, hvalue⟩ := hdeclaration
      split
      · next hsome =>
          have hvalue := hvalue _ hsome
          exact .pure (by simp [hattributes, hvis, htype, hvalue])
      · exact .pure faithful_nil
    · refine .bind (typeDeclaration_keeps hG false true) fun declaration hdeclaration => ?_
      obtain ⟨hgenerics, -, hdefinition⟩ := hdeclaration
      split
      · next hsome =>
          have hdefinition := hdefinition _ hsome
          exact .pure (by simp [hattributes, hvis, hgenerics, hdefinition])
      · exact .pure faithful_nil

/-- The members in braces, with the inner attributes apart. -/
theorem members_keeps {p : Parser (List Outline)} (hp : Keeps text p) :
    Keeps text (members G p) := by
  refine .group (.bind innerAttributes_keeps fun attributes hattributes => ?_)
  exact .bind (.untilEnd hp) fun items hitems => .pure ⟨hattributes, hitems⟩

/-! ### Items -/

/-- An item behind its attributes, as in files and modules. -/
theorem fileItem_keeps (hG : G.Keep text) : Keeps text (do
    let start ← here
    G.item start (← outerAttributes G)) :=
  .seq .here fun start => .bind outerAttributes_keeps fun attributes hattributes =>
    hG.item start attributes hattributes

/-- A trait is a node around all of its parts. The supertraits may be missing; the where clause is
read after them and put in front of them. -/
theorem traitRest_keeps (hG : G.Keep text) (start : Position) (name : String)
    (hattributes : FaithfulTo text attributes) (hvis : FaithfulTo text vis)
    {parameters : List Outline} (hparameters : FaithfulTo text parameters) :
    Keeps text (traitRest G start attributes vis name parameters) := by
  refine .ifMarks (by decide) (.bind (.enclosed (by decide) (boundOutlines_keeps hG false true)) ?_)
    (.bind (.pure faithful_nil) ?_)
  all_goals
    refine fun bounds hbounds => .bind (whereClause_keeps hG) fun clause hclause => ?_
    refine .bind (members_keeps (traitItem_keeps hG)) fun parts hparts => ?_
    refine .seq (.since start) fun _ => .pure (faithful_singleton (faithful_node (by decide) ?_))
    simp [hattributes, hvis, hparameters, hbounds, hclause.2, hparts.1, hparts.2]

/-- An alias of a trait has no node of its own. -/
theorem traitAliasRest_keeps (hG : G.Keep text) (hattributes : FaithfulTo text attributes)
    (hvis : FaithfulTo text vis) {parameters : List Outline}
    (hparameters : FaithfulTo text parameters) :
    Keeps text (traitAliasRest G attributes vis parameters) := by
  refine .bind (.enclosed (by decide) (boundOutlines_keeps hG false true)) fun bounds hbounds =>
    .bind (whereClause_keeps hG) fun clause hclause => .seq (.marks (by decide)) fun _ => .pure ?_
  simp [hattributes, hvis, hparameters, hbounds, hclause.2]

/-- An equals sign tells an alias from a trait. It is looked for only without the words that an
alias cannot have. -/
theorem traitItemDefinition_keeps (hG : G.Keep text) (start : Position)
    (hattributes : FaithfulTo text attributes) (hvis : FaithfulTo text vis) :
    Keeps text (traitItemDefinition G start attributes vis) := by
  refine .seq (.wordIf "unsafe") fun _ => .seq (.wordIf "auto") fun _ =>
    .seq (.word "trait") fun _ => .seq .identifier fun name =>
    .bind (generics_keeps hG) fun generic hgeneric => ?_
  refine .seq .ahead fun _ => .ite (.seq (.marks (by decide)) fun _ => ?_) ?_
  · exact traitAliasRest_keeps hG hattributes hvis hgeneric.2
  · exact traitRest_keeps hG start name hattributes hvis hgeneric.2

/-- The type behind the exclamation mark of a negative implementation, or a type without one. -/
theorem implType_keeps (hG : G.Keep text) {negative : Bool} {i : Input} (hi : FaithfulTo text i)
    (hbare : negative = true → Bare 1 i.rest) :
    KeepsFrom text i (withTokens do
      if negative then skip 1
      G.type true) := by
  refine .ahead (KeepsFrom.bind (.skipWhen hi hbare (hG.type true)) fun type htype => ?_)
  exact .seq .ahead fun _ => .pure ⟨htype, faithful_tokens _⟩

/-- An implementation is a node around its parts, or it contributes nothing because of a form that a
compiler would refuse. The generics and the words in front of the type are read in several ways, and
from the type on the argument is the same for all of them. -/
theorem implDefinition_keeps (hG : G.Keep text) (start : Position)
    (hattributes : FaithfulTo text attributes) :
    Keeps text (implDefinition G start attributes vis) := by
  refine .seq (.wordIf "default") fun _ => .seq (.wordIf "unsafe") fun _ =>
    .seq (.word "impl") fun _ => .seq .ahead fun _ => .ite (.bind (generics_keeps hG) ?_)
      (.bind (.pure (faithful_mk.2 ⟨trivial, faithful_nil⟩)) ?_)
  all_goals
    refine fun generic hgeneric => .seq .ahead fun ts =>
      .ite (.seq (.marksIf (by decide)) fun _ => .seq (.word "const") fun _ => ?_) ?_
    all_goals
      refine .look fun i hi =>
        (implType_keeps hG hi fun hnegative => ?_).bind fun first hfirst => ?_
      · exact .of_atMarks (by decide) (Bool.and_eq_true_iff.1 hnegative).1
      · have hfirst : FaithfulTo text first.1.outlines := hfirst.1
        refine .ifWord "for" (.bind (.withTokens (hG.type true)) fun self hself => ?_) ?_
        all_goals
          refine .bind (whereClause_keeps hG) fun clause hclause => ?_
          refine .bind (members_keeps (implItem_keeps hG)) fun parts hparts => ?_
        · -- Of a trait for a type; only a path can name the trait.
          have hself : FaithfulTo text self.1.outlines := hself.1
          have hnode : FaithfulTo text (attributes ++ parts.1 ++ generic.2 ++ clause.2 ++
              first.1.outlines ++ self.1.outlines ++ parts.2) := by
            simp [hattributes, hgeneric.2, hclause.2, hfirst, hself, hparts.1, hparts.2]
          obtain ⟨⟨shape, outlines⟩, tokens⟩ := first
          cases shape with
          | path simple =>
              refine .ite (.pure faithful_nil) (.seq (.since start) fun _ => .pure ?_)
              exact faithful_singleton (faithful_node (by decide) hnode)
          | _ => exact .pure faithful_nil
        · refine .ite (.pure faithful_nil) (.seq (.since start) fun _ => .pure ?_)
          refine faithful_singleton (faithful_node (by decide) ?_)
          have hhead : FaithfulTo text (attributes ++ parts.1 ++ generic.2 ++ clause.2) := by
            simp [hattributes, hgeneric.2, hclause.2, hparts.1]
          exact faithful_append.2
            ⟨faithful_append.2 ⟨hhead, faithful_ite faithful_nil hfirst⟩, hparts.2⟩

/-- A path of imports goes on behind a separator or ends with another name. -/
theorem importRest_keeps (hG : G.Keep text) : Keeps text (importRest G) := by
  refine .seq .anyWord fun _ => .ifMarks (by decide) ?_ (.ifWord "as" ?_ (.pure trivial))
  · exact .seq (hG.imports false) fun _ => .pure trivial
  · exact .seq (.identifierOr _) fun _ => .pure trivial

/-- The loop over the trees in braces carries a flag, which says nothing about the text. -/
theorem importGroup_keeps (hG : G.Keep text) (root : Bool) : Keeps text (importGroup G root) := by
  refine .loop trivial fun kept _ => .ifEnd (.pure trivial)
    (.ite (.seq (.marksIf (by decide)) ?_) (.seq (.pure trivial) ?_))
  all_goals
    refine fun rooted => .seq (hG.imports _) fun own => .ifEnd (.pure trivial) ?_
    exact .seq (.marks (by decide)) fun _ => .pure trivial

/-- A tree of imports contributes nothing; its answer is a flag. -/
theorem imports_keeps (hG : G.Keep text) (root : Bool) : Keeps text (imports G root) := by
  refine .seq .ahead fun ts => .ite (.seq (importRest_keeps hG) fun _ => .pure trivial) ?_
  exact .ifMarks (by decide) (.pure trivial) (.group (importGroup_keeps hG root))

/-- The node of an import has its attributes and its visibility inside. The tokens of the tree
become its name. -/
theorem importItem_keeps (hG : G.Keep text) (start : Position)
    (hattributes : FaithfulTo text attributes) (hvis : FaithfulTo text vis) :
    Keeps text (importItem G start attributes vis) := by
  refine .seq (.word "use") fun _ => .seq (.marksIf (by decide)) fun _ =>
    .seq (.withTokens (hG.imports _)) fun _ => .seq (.marks (by decide)) fun _ =>
    .ite (.seq (.since start) fun _ => .pure ?_) (.pure faithful_nil)
  exact faithful_singleton (faithful_node (by decide) (faithful_append.2 ⟨hattributes, hvis⟩))

/-- Only a static with a type and a value is a node. The other two forms are read to their semicolon
and contribute nothing, not even their attributes. -/
theorem staticItem_keeps (hG : G.Keep text) (start : Position)
    (hattributes : FaithfulTo text attributes) (hvis : FaithfulTo text vis) :
    Keeps text (staticItem G start attributes vis) := by
  refine .seq (.word "static") fun _ => .seq (.wordIf "mut") fun _ => .seq .identifier fun name =>
    .ifMarks (by decide) ?_ (.seq (.marks (by decide)) fun _ =>
      .bind (hG.type true) fun type htype => .ifMarks (by decide) (.pure faithful_nil)
        (.seq (.marks (by decide)) fun _ => ?_))
  · exact .seq (hG.expression true) fun _ => .seq (.marks (by decide)) fun _ => .pure faithful_nil
  · refine .bind (hG.expression true) fun value hvalue => .seq (.marks (by decide)) fun _ => ?_
    have htype : FaithfulTo text type.outlines := htype
    have hvalue := Expr.faithful_outlines hvalue
    refine .seq (.since start) fun _ => .pure (faithful_singleton (faithful_node (by decide) ?_))
    simp [hattributes, hvis, htype, hvalue]

/-- Only a constant with a value and without generics is a node. Any other contributes nothing. -/
theorem constantItem_keeps (hG : G.Keep text) (start : Position)
    (hattributes : FaithfulTo text attributes) (hvis : FaithfulTo text vis) :
    Keeps text (constantItem G start attributes vis) := by
  refine .seq (.word "const") fun _ =>
    .bind (constantDeclaration_keeps hG) fun declaration hdeclaration => ?_
  obtain ⟨htype, hvalue⟩ := hdeclaration
  split
  · next hsome =>
      have hvalue := hvalue _ hsome
      refine .seq (.since start) fun _ => .pure (faithful_singleton (faithful_node (by decide) ?_))
      simp [hattributes, hvis, htype, hvalue]
  · exact .pure faithful_nil

/-- A foreign module has no node; its attributes and its members are passed on. -/
theorem foreignModule_keeps (hG : G.Keep text) (hattributes : FaithfulTo text attributes) :
    Keeps text (foreignModule G attributes) := by
  refine .seq (.wordIf "unsafe") fun _ => .seq abiIf_keeps fun _ => .ite .fail_bind ?_
  refine .bind (members_keeps (foreignItem_keeps hG)) fun parts hparts => .pure ?_
  exact faithful_append.2 ⟨faithful_append.2 ⟨hattributes, hparts.1⟩, hparts.2⟩

/-- A crate or a foreign module. Where a foreign module follows, reading starts again before the
visibility, on an input that was read from the text as well. -/
theorem externItem_keepsFrom (hG : G.Keep text) (hattributes : FaithfulTo text attributes)
    (hvis : FaithfulTo text vis) {before i : Input} (hbefore : FaithfulTo text before)
    (hi : FaithfulTo text i) (hword : atWord "extern" i.rest = true) :
    KeepsFrom text i (externItem G attributes vis before) := by
  refine .ahead (.ite (fun hcrate => ?_) fun _ => .ite (fun _ => .of hi ?_) fun _ => ?_)
  · -- Both words are known, so neither is a hash sign.
    have hbare : Bare 2 i.rest := .add (.of_atWord hword) (.of_atWord hcrate)
    refine (KeepsFrom.skip hi hbare).bind fun _ _ => .seq (.identifierOr _) fun _ => ?_
    have hend := faithful_append.2 ⟨hattributes, hvis⟩
    refine .ifWord "as" (.seq (.identifierOr _) fun _ => ?_) ?_
    all_goals exact .seq (.marks (by decide)) fun _ => .pure hend
  · -- The visibility is given back, and the words are read again.
    exact .seq (.set hbefore) fun _ => foreignModule_keeps hG hattributes
  · exact .bind_fail

/-- A module is a node around its items, or without any if it stands in a file of its own. In both
cases its attributes and its visibility are part of it. -/
theorem moduleItem_keeps (hG : G.Keep text) (start : Position)
    (hattributes : FaithfulTo text attributes) (hvis : FaithfulTo text vis) :
    Keeps text (moduleItem G start attributes vis) := by
  refine .seq (.wordIf "unsafe") fun _ => .seq (.word "mod") fun _ =>
    .seq (.identifierOr _) fun name => .ifMarks (by decide) (.seq (.since start) fun _ => .pure ?_)
      (.bind (members_keeps (fileItem_keeps hG)) fun parts hparts =>
        .seq (.since start) fun _ => .pure ?_)
  · exact faithful_singleton (faithful_node (by decide) (faithful_append.2 ⟨hattributes, hvis⟩))
  · refine faithful_singleton (faithful_node (by decide) ?_)
    simp [hattributes, hvis, hparts.1, hparts.2]

/-- Only an alias with a definition and without bounds is a node. Any other contributes nothing. -/
theorem typeItem_keeps (hG : G.Keep text) (start : Position)
    (hattributes : FaithfulTo text attributes) (hvis : FaithfulTo text vis) :
    Keeps text (typeItem G start attributes vis) := by
  refine .bind (typeDeclaration_keeps hG true false) fun declaration hdeclaration => ?_
  obtain ⟨hgenerics, -, hdefinition⟩ := hdeclaration
  split
  · next hsome =>
      have hdefinition := hdefinition _ hsome
      refine .seq (.since start) fun _ => .pure (faithful_singleton (faithful_node (by decide) ?_))
      simp [hattributes, hvis, hgenerics, hdefinition]
  · exact .pure faithful_nil

/-- A struct is a node around its parts: attributes, visibility, generic parameters, the bounds of
the where clause, and its fields. -/
theorem structItem_keeps (hG : G.Keep text) (start : Position)
    (hattributes : FaithfulTo text attributes) (hvis : FaithfulTo text vis) :
    Keeps text (structItem G start attributes vis) := by
  refine .seq (.word "struct") fun _ => .seq .identifier fun name =>
    .bind (generics_keeps hG) fun generic hgeneric => ?_
  refine .bind (structRest_keeps hG) fun rest hrest => ?_
  refine .seq (.since start) fun _ => .pure (faithful_singleton (faithful_node (by decide) ?_))
  simp [hattributes, hvis, hgeneric.2, hrest]

/-- An enum is a node around its parts and its variants. The where clause stands in front of the
braces, and its bounds come before the variants. -/
theorem enumItem_keeps (hG : G.Keep text) (start : Position)
    (hattributes : FaithfulTo text attributes) (hvis : FaithfulTo text vis) :
    Keeps text (enumItem G start attributes vis) := by
  refine .seq (.word "enum") fun _ => .seq .identifier fun name =>
    .bind (generics_keeps hG) fun generic hgeneric => ?_
  refine .bind (whereClause_keeps hG) fun clause hclause => ?_
  refine .bind (.group (.terminated (variant_keeps hG))) fun variants hvariants => ?_
  refine .seq (.since start) fun _ => .pure (faithful_singleton (faithful_node (by decide) ?_))
  simp [hattributes, hvis, hgeneric.2, hclause.2, hvariants]

/-- A union has no node; its parts are passed on. -/
theorem unionItem_keeps (hG : G.Keep text) (hattributes : FaithfulTo text attributes)
    (hvis : FaithfulTo text vis) : Keeps text (unionItem G attributes vis) := by
  refine .seq (.word "union") fun _ => .seq .identifier fun _ =>
    .bind (generics_keeps hG) fun generic hgeneric => ?_
  refine .bind (whereClause_keeps hG) fun clause hclause => ?_
  refine .bind hG.namedFields fun fields hfields => .pure ?_
  simp [hattributes, hvis, hgeneric.2, hclause.2, hfields]

/-- The definition of an invocable name is skipped, parentheses and braces as they are. -/
theorem invocableItem_keeps : Keeps text invocableItem := by
  refine .seq (.word "macro") fun _ => .seq .identifier fun _ => .look fun i hi =>
    .skipWhen hi (fun hparens => .of_look hparens fun _ _ _ => rfl) (.look fun i hi => ?_)
  refine .ite (fun _ => .of hi .fail_bind) fun hbraces => ?_
  have hahead : atGroup .brace i.rest = true := by simpa using hbraces
  exact (KeepsFrom.skip hi (.of_look hahead fun _ _ _ => rfl)).bind fun _ _ => .pure faithful_nil

/-- The first words decide which item is read, in the order in which the production asks. The
visibility is read before that, and `extern` behind it can make the input go back. -/
theorem item_keeps (hG : G.Keep text) (start : Position)
    (hattributes : FaithfulTo text attributes) : Keeps text (item G start attributes) := by
  refine .bind .get fun before hbefore => .bind visibility_keeps fun vis hvis => ?_
  have htrait := traitItemDefinition_keeps hG start hattributes hvis
  have himpl : Keeps text (implDefinition G start attributes vis) :=
    implDefinition_keeps hG start hattributes
  have hmodule := moduleItem_keeps hG start hattributes hvis
  refine .look fun i hi => .ifSignature (.of hi (functionItem_keeps hG start hattributes hvis)) ?_
  refine .ite (externItem_keepsFrom hG hattributes hvis hbefore hi) fun _ => .of hi ?_
  refine .ite (importItem_keeps hG start hattributes hvis)
    (.ite (staticItem_keeps hG start hattributes hvis)
    (.ite (constantItem_keeps hG start hattributes hvis) (.ite ?_ (.ite hmodule
    (.ite (typeItem_keeps hG start hattributes hvis)
    (.ite (structItem_keeps hG start hattributes hvis)
    (.ite (enumItem_keeps hG start hattributes hvis) (.ite (unionItem_keeps hG hattributes hvis)
    (.ite htrait (.ite himpl (.ite invocableItem_keeps (.ite ?_ .fail))))))))))))
  · -- Behind `unsafe`, the next words decide. A foreign module is read from the start again, as it
    -- cannot have a visibility.
    refine .ite htrait (.ite himpl (.ite ?_ (.ite hmodule fun _ _ => .bind_fail)))
    exact .seq (.set hbefore) fun _ => foreignModule_keeps hG hattributes
  · exact .seq (itemInvocation_keeps true) fun _ => .pure hattributes

/-! ### Files -/

/-- A file is read like the inside of a module, up to the end. -/
theorem file_keeps (hG : G.Keep text) : Keeps text (file G) := by
  refine .bind innerAttributes_keeps fun attributes hattributes => ?_
  exact .bind (.untilEnd (fileItem_keeps hG)) fun items hitems =>
    .pure (faithful_append.2 ⟨hattributes, hitems⟩)

/-- Each production keeps to the text because those one level deeper do. At depth 0 all of them
fail, and a failure keeps to every text; so the depth does not have to be enough for this. -/
theorem productions_keep (depth : Nat) : (productions depth).Keep text := by
  induction depth with
  | zero =>
      exact {
        expression := fun _ => .fail
        statementExpression := .fail
        operand := fun _ => .fail
        operation := fun _ _ _ _ => .fail
        type := fun _ => .fail
        bound := fun _ _ => .fail
        pattern := .fail
        statements := .fail
        item := fun _ _ _ => .fail
        imports := fun _ => .fail
        namedFields := .fail }
  -- One field for each production; `ih` is about those that it calls.
  | succ depth ih =>
      exact {
        expression := expression_keeps ih
        statementExpression := statementExpression_keeps ih
        operand := operand_keeps ih
        operation := fun structs least _ hleft => operation_keeps ih structs least hleft
        type := type_keeps ih
        bound := bound_keeps ih
        pattern := pattern_keeps ih
        statements := statements_keeps ih
        item := fun start _ hattributes => item_keeps ih start hattributes
        imports := imports_keeps ih
        namedFields := namedFields_keeps ih }

/-- Every literal in the outline of a text stands in the text, less its byte order mark. The tokens
of the text were read from it, and the productions keep to what the tokens say. -/
theorem outline_faithful {source : String} {outlines : List Outline}
    (h : outline source = .ok outlines) :
    FaithfulTo (Source.dropByteOrderMark source.toList) outlines := by
  rw [outline] at h
  cases htokens : Source.tokens source.toList with
  | error place =>
      rw [htokens] at h
      cases h
  | ok ts =>
      rw [htokens] at h
      have hinput : FaithfulTo (Source.dropByteOrderMark source.toList)
          (⟨ts, .first, .first, false, none⟩ : Input) := Source.reads_tokens htokens
      dsimp only [bind, Except.bind] at h
      cases hfile : file (productions (depthFor source.toList.length))
          ⟨ts, .first, .first, false, none⟩ with
      | error place =>
          rw [hfile] at h
          cases h
      | ok result =>
          rw [hfile] at h
          -- The input starts with all tokens, and these were read from the text.
          have hresult := (file_keeps (productions_keep _) _ hinput _ _ hfile).1
          dsimp only at h
          split at h
          · cases h
          · cases h
            exact hresult

end Arborist.Grammar
