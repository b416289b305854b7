import Arborist.Grammar.Function

/-!
# `Arborist.Grammar.Item`: items

Items are what files, modules and blocks are made of, and the members of traits, implementations
and foreign modules. Some forms are accepted although no compiler takes them further, such as a
function without a body; they contribute nothing.
-/

set_option autoImplicit false

namespace Arborist.Grammar

open Grammar.Parser
open Source (Position Token)

/-- One field with a name. A field named `_` may have fields in braces instead of a type. -/
def namedField (G : Productions) : Parser (List Outline) := do
  let start ← here
  let attributes ← outerAttributes G
  let visibility ← visibility
  let unnamed := atWord "_" (← ahead)
  let name ← identifierOr ["_"]
  marks ":"
  let ts ← ahead
  let type ←
    if unnamed && (atWord "struct" ts || (atWord "union" ts && atGroup .brace (ts.drop 1))) then
      skip 1
      let _ ← G.namedFields
      pure []
    else pure (← G.type true).outlines
  return [.node .field (← since start) (some name) (attributes ++ visibility ++ type)]

/-- Fields in braces. -/
def namedFields (G : Productions) : Parser (List Outline) :=
  group .brace (terminated (namedField G))

/-- One field without a name. -/
def positionalField (G : Productions) : Parser (List Outline) := do
  let start ← here
  let attributes ← outerAttributes G
  let visibility ← visibility
  let type ← G.type true
  return [.node .field (← since start) none (attributes ++ visibility ++ type.outlines)]

/-- Fields in parentheses. -/
def positionalFields (G : Productions) : Parser (List Outline) :=
  group .paren (terminated (positionalField G))

/-- The rest of a struct behind its generic parameters: the where clause, then the fields. -/
def structRest (G : Productions) : Parser (List Outline) := do
  let (clause, predicates) ← whereClause G
  let ts ← ahead
  if !clause && atGroup .paren ts then
    let fields ← positionalFields G
    let (_, predicates) ← whereClause G
    marks ";"
    return predicates ++ fields
  else if atGroup .brace ts then return predicates ++ (← G.namedFields)
  else
    marks ";"
    return predicates

/-- One variant of an enum. Its visibility is read and then forgotten. -/
def variant (G : Productions) : Parser (List Outline) := do
  let start ← here
  let attributes ← outerAttributes G
  let _ ← visibility
  let own ← here
  let name ← identifier
  let ts ← ahead
  let fields ←
    if atGroup .brace ts then G.namedFields
    else if atGroup .paren ts then positionalFields G
    else pure []
  let value ← if ← marksIf "=" then pure (← G.expression true).outlines else pure []
  let start := if attributes.isEmpty then own else start
  return [.node .variant (← since start) (some name) (attributes ++ fields ++ value)]

/-- A type declaration behind its visibility. -/
structure TypeDeclaration where
  name : String
  /-- What the generic parameters and the where clause contribute. -/
  generics : List Outline
  /-- The bounds behind a colon. -/
  bounds : Option (List Outline)
  /-- The type behind an equals sign. -/
  definition : Option (List Outline)

/-- A type declaration; the where clause stands before the equals sign, or behind the definition, or
at either place. -/
def typeDeclaration (G : Productions) (before after : Bool) : Parser TypeDeclaration := do
  word "type"
  let name ← identifier
  let (_, parameters) ← generics G
  let ends (ts : List Token) := atWord "where" ts || atMarks "=" ts || atMarks ";" ts
  let bounds ←
    if ← marksIf ":" then
      pure (some (← enclosed "+" ends (return (← G.bound false true).outlines)))
    else pure none
  let (early, predicates) ← if before then whereClause G else pure (false, [])
  let definition ← if ← marksIf "=" then pure (some (← G.type true).outlines) else pure none
  let (_, late) ← if after && !early then whereClause G else pure (false, [])
  marks ";"
  return ⟨name, parameters ++ predicates ++ late, bounds, definition⟩

/-- A constant behind `const`. -/
structure ConstantDeclaration where
  name : String
  /-- There are generic parameters or a where clause. -/
  generic : Bool
  type : List Outline
  value : Option (List Outline)

/-- A constant behind `const`. -/
def constantDeclaration (G : Productions) : Parser ConstantDeclaration := do
  let name ← identifierOr ["_"]
  let (parameters, _) ← generics G
  marks ":"
  let type ← G.type true
  let value ← if ← marksIf "=" then pure (some (← G.expression true).outlines) else pure none
  let (clause, _) ← whereClause G
  marks ";"
  return ⟨name, parameters || clause, type.outlines, value⟩

/-- An invocation as an item or a member; a name may stand behind the exclamation mark of an item.
Brackets other than braces need a semicolon. -/
def itemInvocation (named : Bool) : Parser Unit := do
  let _ ← simplePath
  marks "!"
  if named && (atIdentifier (← ahead) || atWord "try" (← ahead)) then skip 1
  let ts ← ahead
  if atGroup .brace ts then skip 1
  else if atGroup .paren ts || atGroup .bracket ts then
    skip 1
    marks ";"
  else fail

/-- The body of a function: what its inner attributes contribute, and its block. -/
def functionBody (G : Productions) : Parser (List Outline × List Outline) := do
  let (attributes, block) ← blockWithAttributes G
  return (attributes, [block])

/-- A member of a foreign module. -/
def foreignItem (G : Productions) : Parser (List Outline) := do
  let attributes ← outerAttributes G
  let vis ← visibility
  let ts ← ahead
  if ← atSignature true then
    let safe ← functionWords true
    let signature ← signatureRest G
    if atGroup .brace (← ahead) then
      let _ ← functionBody G
      return []
    marks ";"
    return if safe then [] else attributes ++ vis ++ signature.outlines
  else if atWord "static" ts ||
      (atWordOf ["unsafe", "safe"] ts && atWord "static" (ts.drop 1)) then
    let marked := !atWord "static" ts
    if marked then skip 1
    word "static"
    let _ ← wordIf "mut"
    let _ ← identifier
    marks ":"
    let type ← G.type true
    let valued ← marksIf "="
    if valued then
      let _ ← G.expression true
    marks ";"
    return if marked || valued then [] else attributes ++ vis ++ type.outlines
  else if atWord "type" ts then
    let declaration ← typeDeclaration G true true
    return if declaration.bounds.isSome || declaration.definition.isSome then []
      else attributes ++ vis ++ declaration.generics
  else if vis.isEmpty && atPath ts then
    itemInvocation false
    return attributes
  else fail

/-- A constant member of a trait, behind `const`. -/
def traitConstant (G : Productions) (attributes : List Outline) : Parser (List Outline) := do
  let declaration ← constantDeclaration G
  return if declaration.generic then []
    else attributes ++ declaration.type ++ declaration.value.getD []

/-- A member of a trait. -/
def traitItem (G : Productions) : Parser (List Outline) := do
  let start ← here
  let attributes ← outerAttributes G
  let vis ← visibility
  let default ← wordIf "default"
  let plain := vis.isEmpty && !default
  let ts ← ahead
  let outlines ←
    if ← atSignature false then do
      let signature ← signature G
      let (inner, body) ←
        if atGroup .brace (← ahead) then functionBody G
        else do
          marks ";"
          pure ([], [])
      pure [← functionNode start (attributes ++ inner) [] signature body]
    else if ← wordIf "const" then traitConstant G attributes
    else if atWord "type" ts then do
      let declaration ← typeDeclaration G false true
      pure (attributes ++ declaration.generics ++ declaration.bounds.getD [] ++
        declaration.definition.getD [])
    else if plain && atPath ts then do
      itemInvocation false
      pure attributes
    else fail
  return if plain then outlines else []

/-- A member of an implementation. -/
def implItem (G : Productions) : Parser (List Outline) := do
  let start ← here
  let attributes ← outerAttributes G
  let vis ← visibility
  let ts ← ahead
  let default ← if atMarks "!" (ts.drop 1) then pure false else wordIf "default"
  let ts ← ahead
  if ← atSignature false then
    let signature ← signature G
    if ← marksIf ";" then return []
    let (inner, body) ← functionBody G
    return [← functionNode start (attributes ++ inner) vis signature body]
  else if ← wordIf "const" then
    let declaration ← constantDeclaration G
    match declaration.generic, declaration.value with
    | false, some value => return attributes ++ vis ++ declaration.type ++ value
    | _, _ => return []
  else if atWord "type" ts then
    let declaration ← typeDeclaration G false true
    match declaration.bounds, declaration.definition with
    | none, some type => return attributes ++ vis ++ declaration.generics ++ type
    | _, _ => return []
  else if vis.isEmpty && !default && atPath ts then
    itemInvocation false
    return attributes
  else fail

/-- The inside of braces: inner attributes and members. -/
def members (G : Productions) (p : Parser (List Outline)) : Parser (List Outline × List Outline) :=
  group .brace do
    let attributes ← innerAttributes G
    return (attributes, ← untilEnd p)

/-- The rest of a trait behind its generic parameters. -/
def traitRest (G : Productions) (start : Position) (attributes vis : List Outline) (name : String)
    (parameters : List Outline) : Parser (List Outline) := do
  let ends (ts : List Token) := atWord "where" ts || atGroup .brace ts
  let supertraits ←
    if ← marksIf ":" then enclosed "+" ends (return (← G.bound false true).outlines) else pure []
  let (_, predicates) ← whereClause G
  let (inner, items) ← members G (traitItem G)
  return [.node .traitDef (← since start) (some name)
    (attributes ++ inner ++ vis ++ parameters ++ predicates ++ supertraits ++ items)]

/-- The rest of a trait alias behind its equals sign. -/
def traitAliasRest (G : Productions) (attributes vis parameters : List Outline) :
    Parser (List Outline) := do
  let ends (ts : List Token) := atWord "where" ts || atMarks ";" ts
  let bounds ← enclosed "+" ends (return (← G.bound false true).outlines)
  let (_, predicates) ← whereClause G
  marks ";"
  return attributes ++ vis ++ parameters ++ predicates ++ bounds

/-- A trait or a trait alias behind its visibility. -/
def traitItemDefinition (G : Productions) (start : Position) (attributes vis : List Outline) :
    Parser (List Outline) := do
  let marked ← wordIf "unsafe"
  let automatic ← wordIf "auto"
  word "trait"
  let name ← identifier
  let (_, parameters) ← generics G
  if !marked && !automatic && atMarks "=" (← ahead) then
    marks "="
    traitAliasRest G attributes vis parameters
  else traitRest G start attributes vis name parameters

/-- An implementation behind its visibility. -/
def implDefinition (G : Productions) (start : Position) (attributes vis : List Outline) :
    Parser (List Outline) := do
  let _ ← wordIf "default"
  let _ ← wordIf "unsafe"
  word "impl"
  let (_, parameters) ← if atGenerics (← ahead) then generics G else pure (false, [])
  let ts ← ahead
  let constant := atWord "const" ts || (atMarks "?" ts && atWord "const" (ts.drop 1))
  if constant then
    let _ ← marksIf "?"
    word "const"
  let ts ← ahead
  let negative := atMarks "!" ts && !atGroup .brace (ts.drop 1)
  let (first, firstTokens) ← withTokens do
    if negative then skip 1
    G.type true
  if ← wordIf "for" then
    let (self, selfTokens) ← withTokens (G.type true)
    let (_, predicates) ← whereClause G
    let (inner, items) ← members G (implItem G)
    match first.shape with
    | .path _ =>
      if !vis.isEmpty || constant then return []
      return [.node .implBlock (← since start) (some (Token.renderAll selfTokens))
        (attributes ++ inner ++ parameters ++ predicates ++ first.outlines ++ self.outlines ++
          items)]
    | _ => return []
  else
    let (_, predicates) ← whereClause G
    let (inner, items) ← members G (implItem G)
    if !vis.isEmpty || constant then return []
    let self := if negative then [] else first.outlines
    return [.node .implBlock (← since start) (some (Token.renderAll firstTokens))
      (attributes ++ inner ++ parameters ++ predicates ++ self ++ items)]

/-- A tree of imports behind a word of its path. -/
def importRest (G : Productions) : Parser Unit := do
  let _ ← anyWord
  if ← marksIf "::" then
    let _ ← G.imports false
  else if ← wordIf "as" then
    let _ ← identifierOr ["_"]

/-- The trees in the braces of a tree of imports. -/
def importGroup (G : Productions) (root : Bool) : Parser Bool :=
  loop (fun kept => do
    if ← atEnd then return .done kept
    let rooted ← if root then marksIf "::" else pure false
    let own ← G.imports (root && !rooted)
    let kept := kept && !rooted && own
    if ← atEnd then return .done kept
    marks ","
    return .more kept) true

/-- A tree of imports. The answer is false if a path in it starts with a separator although it
stands in braces. -/
def imports (G : Productions) (root : Bool) : Parser Bool := do
  let ts ← ahead
  if atIdentifier ts || atWordOf ["self", "super", "crate", "try"] ts then
    importRest G
    return true
  else if ← marksIf "*" then return true
  else group .brace (importGroup G root)

/-- An import behind its visibility. -/
def importItem (G : Productions) (start : Position) (attributes vis : List Outline) :
    Parser (List Outline) := do
  word "use"
  let rooted ← marksIf "::"
  let (kept, tokens) ← withTokens (G.imports !rooted)
  marks ";"
  if kept then
    return [.node .useDecl (← since start) (some (Token.renderAll tokens)) (attributes ++ vis)]
  else return []

/-- A static behind its visibility. -/
def staticItem (G : Productions) (start : Position) (attributes vis : List Outline) :
    Parser (List Outline) := do
  word "static"
  let _ ← wordIf "mut"
  let name ← identifier
  if ← marksIf "=" then
    let _ ← G.expression true
    marks ";"
    return []
  marks ":"
  let type ← G.type true
  if ← marksIf ";" then return []
  marks "="
  let value ← G.expression true
  marks ";"
  return [.node .staticDef (← since start) (some name)
    (attributes ++ vis ++ type.outlines ++ value.outlines)]

/-- A constant behind its visibility. -/
def constantItem (G : Productions) (start : Position) (attributes vis : List Outline) :
    Parser (List Outline) := do
  word "const"
  let declaration ← constantDeclaration G
  match declaration.generic, declaration.value with
  | false, some value =>
    return [.node .constDef (← since start) (some declaration.name)
      (attributes ++ vis ++ declaration.type ++ value)]
  | _, _ => return []

/-- A foreign module. -/
def foreignModule (G : Productions) (attributes : List Outline) : Parser (List Outline) := do
  let _ ← wordIf "unsafe"
  if !(← abiIf) then fail
  let (inner, items) ← members G (foreignItem G)
  return attributes ++ inner ++ items

/-- An item that starts with `extern` and is no function. `vis` is its visibility, which only an
imported crate can have. -/
def externItem (G : Productions) (attributes vis : List Outline) (before : Input) :
    Parser (List Outline) := do
  let ts := (← ahead).drop 1
  if atWord "crate" ts then
    skip 2
    let _ ← identifierOr ["self"]
    if ← wordIf "as" then
      let _ ← identifierOr ["_"]
    marks ";"
    return attributes ++ vis
  else if atGroup .brace ts || (atStringLiteral ts && atGroup .brace (ts.drop 1)) then
    set before
    foreignModule G attributes
  else
    skip (if atStringLiteral ts then 2 else 1)
    fail

/-- A module behind its visibility. -/
def moduleItem (G : Productions) (start : Position) (attributes vis : List Outline) :
    Parser (List Outline) := do
  let _ ← wordIf "unsafe"
  word "mod"
  let name ← identifierOr ["try"]
  if ← marksIf ";" then
    return [.node .moduleDef (← since start) (some name) (attributes ++ vis)]
  let (inner, items) ← members G do
    let start ← here
    G.item start (← outerAttributes G)
  return [.node .moduleDef (← since start) (some name) (attributes ++ inner ++ vis ++ items)]

/-- A type alias behind its visibility. -/
def typeItem (G : Productions) (start : Position) (attributes vis : List Outline) :
    Parser (List Outline) := do
  let declaration ← typeDeclaration G true false
  match declaration.bounds, declaration.definition with
  | none, some type =>
    return [.node .typeAlias (← since start) (some declaration.name)
      (attributes ++ vis ++ declaration.generics ++ type)]
  | _, _ => return []

/-- A struct behind its visibility. -/
def structItem (G : Productions) (start : Position) (attributes vis : List Outline) :
    Parser (List Outline) := do
  word "struct"
  let name ← identifier
  let (_, parameters) ← generics G
  let rest ← structRest G
  return [.node .structDef (← since start) (some name) (attributes ++ vis ++ parameters ++ rest)]

/-- An enum behind its visibility. -/
def enumItem (G : Productions) (start : Position) (attributes vis : List Outline) :
    Parser (List Outline) := do
  word "enum"
  let name ← identifier
  let (_, parameters) ← generics G
  let (_, predicates) ← whereClause G
  let variants ← group .brace (terminated (variant G))
  return [.node .enumDef (← since start) (some name)
    (attributes ++ vis ++ parameters ++ predicates ++ variants)]

/-- A union behind its visibility. -/
def unionItem (G : Productions) (attributes vis : List Outline) : Parser (List Outline) := do
  word "union"
  let _ ← identifier
  let (_, parameters) ← generics G
  let (_, predicates) ← whereClause G
  return attributes ++ vis ++ parameters ++ predicates ++ (← G.namedFields)

/-- The definition of an invocable name, behind its visibility. -/
def invocableItem : Parser (List Outline) := do
  word "macro"
  let _ ← identifier
  if atGroup .paren (← ahead) then skip 1
  if !atGroup .brace (← ahead) then fail
  skip 1
  return []

/-- The rest of an item behind its attributes, which start at `start`. -/
def item (G : Productions) (start : Position) (attributes : List Outline) :
    Parser (List Outline) := do
  let before ← get
  let vis ← visibility
  let ts ← ahead
  let second := ts.drop 1
  if ← atSignature false then
    let signature ← signature G
    if ← marksIf ";" then return []
    let (inner, body) ← functionBody G
    return [← functionNode start (attributes ++ inner) vis signature body]
  else if atWord "extern" ts then externItem G attributes vis before
  else if atWord "use" ts then importItem G start attributes vis
  else if atWord "static" ts then staticItem G start attributes vis
  else if atWord "const" ts then constantItem G start attributes vis
  else if atWord "unsafe" ts then
    if atWord "trait" second || (atWord "auto" second && atWord "trait" (ts.drop 2)) then
      traitItemDefinition G start attributes vis
    else if atWord "impl" second then implDefinition G start attributes vis
    else if atWord "extern" second then
      set before
      foreignModule G attributes
    else if atWord "mod" second then moduleItem G start attributes vis
    else
      skip 1
      fail
  else if atWord "mod" ts then moduleItem G start attributes vis
  else if atWord "type" ts then typeItem G start attributes vis
  else if atWord "struct" ts then structItem G start attributes vis
  else if atWord "enum" ts then enumItem G start attributes vis
  else if atWord "union" ts && atIdentifier second then unionItem G attributes vis
  else if atWord "trait" ts || (atWord "auto" ts && atWord "trait" second) then
    traitItemDefinition G start attributes vis
  else if atWord "impl" ts || (atWord "default" ts && !atMarks "!" second) then
    implDefinition G start attributes vis
  else if atWord "macro" ts then invocableItem
  else if vis.isEmpty && atPath ts then
    itemInvocation true
    return attributes
  else fail

end Arborist.Grammar
