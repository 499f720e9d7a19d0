import ApiCatalog.Declaration.Basic
import ApiCatalog.TypeExpr.OfForm

/-!
# Declarations from forms

A declaration is a list of a head symbol, a name and clauses, each a keyword with its value.
No clause may be repeated. Repeated members and symbols are kept, for the validation of a
catalog to report.

Main definitions: `Declaration.ofForm`, `TypeDeclaration.ofForm`, `Enumeration.ofForm`,
`Augmentation.ofForm`, `Member.ofForm`.
-/

namespace ApiCatalog

/-! ### Names and heads -/

/-- Whether a name is free of qualifiers, member parts and the colon of a declaration. -/
def isPlainName (name : String) : Bool :=
  match name.toList with
  | [] => false
  | c :: cs =>
    !(c == '?' || c == '!' || c == '*') && !(c :: cs).contains '/' &&
      (c :: cs).getLast? != some ':'

namespace Form

/-- The items of a list with the given head. -/
def expectHead (f : Form) (head : String) : Meaning (List Form) :=
  match f with
  | .seq .round items _ =>
    if f.head? == some head then .ok items else f.reject (.headMismatch head)
  | _ => f.reject (.headMismatch head)

/-- The name of a type; `place` says what it is for. -/
def expectTypeName (f : Form) (place : String) : Meaning String :=
  match f.symbol? with
  | some name =>
    if isPlainName name then .ok name else f.reject (.typeNameExpected place f.sort)
  | none => f.reject (.typeNameExpected place f.sort)

/-- The names of types in a vector. -/
def expectTypeNames (f : Form) (place : String) : Meaning (List String) := do
  (← f.expectVector place).mapM (·.expectTypeName place)

/-- The name that a declaration with the given items declares, and the items behind it. -/
def takeName (span : Span) (head : String) : List Form → Meaning (String × List Form)
  | _ :: name :: rest => do .ok (← name.expectTypeName head, rest)
  | _ => .error ⟨.nameMissing head, span⟩

/-- The name of a member with the given items, and the items behind it. -/
def takeMemberName (span : Span) (head : String) : List Form → Meaning (String × List Form)
  | _ :: name :: rest =>
    match name.symbol? with
    | some s =>
      if isPlainName s then .ok (s, rest) else name.reject (.memberNameExpected head name.sort)
    | none => name.reject (.memberNameExpected head name.sort)
  | _ => .error ⟨.nameMissing head, span⟩

theorem exists_items_of_takeName {span : Span} {head name : String} {items rest : List Form}
    (h : takeName span head items = .ok (name, rest)) :
    ∃ first second, items = first :: second :: rest := by
  unfold takeName at h
  split at h
  · obtain ⟨_, _, h⟩ := Meaning.bind_eq_ok.1 h
    cases h
    exact ⟨_, _, rfl⟩
  · cases h

theorem exists_items_of_takeMemberName {span : Span} {head name : String} {items rest : List Form}
    (h : takeMemberName span head items = .ok (name, rest)) :
    ∃ first second, items = first :: second :: rest := by
  unfold takeMemberName at h
  split at h
  · split at h
    · split at h
      · cases h
        exact ⟨_, _, rfl⟩
      · cases h
    · cases h
  · cases h

/-- The clauses that items make up, given the names of those before. -/
def clauses (span : Span) (seen : List String) : List Form → Meaning (List (String × Form))
  | [] => .ok []
  | [key] => do
    let name ← key.expectKeyword
    .error ⟨.valueMissing name, span⟩
  | key :: value :: rest => do
    let name ← key.expectKeyword
    if seen.contains name then key.reject (.duplicateClause name)
    else .ok ((name, value) :: (← clauses span (name :: seen) rest))

end Form

/-! ### Annotations -/

/-- The reference that a form denotes. -/
def Reference.ofForm (f : Form) : Meaning Reference :=
  match f.symbol?.bind ofText? with
  | some r => .ok r
  | none => f.reject .referenceExpected

/-- The deprecation with one entry of a map added. -/
def Deprecation.addEntry (d : Deprecation) (entry : Form × Form) : Meaning Deprecation :=
  match entry.1.keyword? with
  | some "replacement" => do .ok { d with replacement := some (← Reference.ofForm entry.2) }
  | some "note" =>
    match entry.2.string? with
    | some note => .ok { d with note := some note }
    | none => entry.2.reject .noteNotString
  | _ => entry.1.reject .unknownDeprecationKey

/-- The deprecation that a form denotes: a truth value, a note, a replacement, or a map of
both. -/
def Deprecation.ofForm (f : Form) : Meaning (Option Deprecation) :=
  match f with
  | .atom (.bool true) _ => .ok (some {})
  | .atom (.bool false) _ => .ok none
  | .atom (.string note) _ => .ok (some { note := some note })
  | .atom (.symbol _) _ => do .ok (some { replacement := some (← Reference.ofForm f) })
  | .seq .curly items _ => do .ok (some (← (pairs items).foldlM addEntry {}))
  | f => f.reject (.invalidDeprecation f.sort)

/-- The link that a form denotes. -/
def linkOfForm (f : Form) : Meaning String :=
  match f.string? with
  | some link => .ok link
  | none => f.reject .linkNotString

/-- The links that a vector denotes. -/
def linksOfForm (f : Form) : Meaning (List String) := do
  (← f.expectVector ":see").mapM linkOfForm

/-! ### Members -/

/-- The parameter with a name and a type in a form, given the names of those before. -/
def Parameter.ofParts (names : List String) (f name type : Form) (optional : Bool) :
    Meaning Parameter :=
  match name.symbol? with
  | none => name.reject .paramNameNotSymbol
  | some s =>
    if names.contains s then f.reject (.duplicateParam s)
    else do .ok ⟨s, ← TypeExpr.ofForm type, optional⟩

/-- The parameter that a form denotes, given the names of those before. -/
def Parameter.ofForm (names : List String) (f : Form) : Meaning Parameter :=
  match f.list? with
  | none => f.reject (.paramNotList f.sort)
  | some [name, type] => ofParts names f name type false
  | some [name, type, flag] =>
    if flag.keyword? == some "optional" then ofParts names f name type true
    else f.reject .paramShape
  | some _ => f.reject .paramShape

/-- The parameters that forms denote, given the names of those before. -/
def Parameter.ofForms (names : List String) : List Form → Meaning (List Parameter)
  | [] => .ok []
  | f :: fs => do
    let param ← Parameter.ofForm names f
    .ok (param :: (← Parameter.ofForms (param.name :: names) fs))

/-- The parameters that a vector denotes. -/
def Parameter.listOfForm (f : Form) : Meaning (List Parameter) := do
  Parameter.ofForms [] (← f.expectVector "parameter list")

namespace Member

/-- The member with an annotation. -/
def annotate (m : Member) (key : String) (value : Form) : Meaning Member :=
  if key = "deprecated" then do .ok { m with deprecated := ← Deprecation.ofForm value }
  else do .ok { m with see := ← linksOfForm value }

/-- The property with the flags and annotations that items denote. -/
def addPropertyClauses (span : Span) (type : TypeExpr) (isReadonly isConstant : Bool)
    (m : Member) : List Form → Meaning Member
  | [] => .ok { m with kind := .property type isReadonly isConstant }
  | key :: rest => do
    let name ← key.expectKeyword
    if name = "readonly" then addPropertyClauses span type true isConstant m rest
    else if name = "const" then addPropertyClauses span type isReadonly true m rest
    else if name = "deprecated" ∨ name = "see" then
      match rest with
      | [] => .error ⟨.valueMissing name, span⟩
      | value :: rest => do
        addPropertyClauses span type isReadonly isConstant (← m.annotate name value) rest
    else key.reject (.unknownPropertyFlag name)

/-- The name of a property that a method changes. -/
def mutatedName (f : Form) : Meaning String :=
  match f.symbol? with
  | some name => .ok name
  | none => f.reject .mutatedNotName

/-- The method with the clauses that items denote. -/
def addMethodClauses (span : Span) (params : List Parameter) (returns : TypeExpr)
    (mutates : List String) (m : Member) : List Form → Meaning Member
  | [] => .ok { m with kind := .method params returns mutates }
  | [key] => do
    let name ← key.expectKeyword
    .error ⟨.valueMissing name, span⟩
  | key :: value :: rest => do
    let name ← key.expectKeyword
    if name = "mutates" then
      let mutates ← (← value.expectVector ":mutates").mapM mutatedName
      addMethodClauses span params returns mutates m rest
    else if name = "deprecated" ∨ name = "see" then
      addMethodClauses span params returns mutates (← m.annotate name value) rest
    else key.reject (.unknownMethodClause name)

/-- The property that a form denotes. -/
def propertyOfForm (f : Form) : Meaning Member := do
  let items ← f.expectHead "property"
  let (name, rest) ← Form.takeMemberName f.span "property" items
  match rest with
  | [] => f.reject (.propertyTypeMissing name)
  | type :: clauses =>
    let type ← TypeExpr.ofForm type
    addPropertyClauses f.span type false false (.property name type) clauses

/-- The method that a form denotes. -/
def methodOfForm (f : Form) : Meaning Member := do
  let items ← f.expectHead "method"
  let (name, rest) ← Form.takeMemberName f.span "method" items
  match rest with
  | [] => f.reject (.paramsMissing name)
  | params :: rest =>
    let params ← Parameter.listOfForm params
    let (returns, clauses) ← match rest with
      | [] => .ok (TypeExpr.void, [])
      | returns :: clauses =>
        if returns.isKeyword then .ok (TypeExpr.void, returns :: clauses)
        else do .ok (← TypeExpr.ofForm returns, clauses)
    addMethodClauses f.span params returns [] (.method name params returns) clauses

/-- The member that a form denotes. -/
def ofForm (f : Form) : Meaning Member :=
  match f.head? with
  | some "property" => propertyOfForm f
  | some "method" => methodOfForm f
  | _ => f.reject .notMember

/-- The members that a vector denotes. -/
def listOfForm (f : Form) : Meaning (List Member) := do
  (← f.expectVector ":members").mapM ofForm

end Member

/-! ### Types -/

namespace TypeDeclaration

/-- The declaration with one more clause. Every kind of type takes annotations, and all but a
typedef take a parent, capabilities, type parameters and members; only a class takes the
parameters of a constructor. -/
def addClause (d : TypeDeclaration) (clause : String × Form) : Meaning TypeDeclaration :=
  let (key, value) := clause
  if key = "deprecated" then do .ok { d with deprecated := ← Deprecation.ofForm value }
  else if key = "see" then do .ok { d with see := ← linksOfForm value }
  else if d.kind = .typedef then value.reject (.unknownClause d.kind.name key)
  else if key = "extends" then do
    .ok { d with parent := some (← value.expectTypeName ":extends") }
  else if key = "implements" then do
    .ok { d with capabilities := ← value.expectTypeNames ":implements" }
  else if key = "template" then do .ok { d with template := ← value.expectTypeNames ":template" }
  else if key = "members" then do .ok { d with members := ← Member.listOfForm value }
  else if key = "params" ∧ d.kind = .classLike then do
    .ok { d with constructor := some (← Parameter.listOfForm value) }
  else value.reject (.unknownClause d.kind.name key)

/-- The declaration of the given kind that a form denotes. -/
def ofForm (kind : TypeKind) (f : Form) : Meaning TypeDeclaration := do
  let items ← f.expectHead kind.head
  let (name, rest) ← Form.takeName f.span kind.head items
  let (draft, rest) ← match kind, rest with
    | .typedef, [] => .error ⟨.aliasMissing, f.span⟩
    | .typedef, aliased :: rest => do
      .ok (TypeDeclaration.ofTypedef name (← TypeExpr.ofForm aliased), rest)
    | .classLike, rest => .ok (TypeDeclaration.ofClass name, rest)
    | kind, rest => .ok ({ name, kind }, rest)
  (← Form.clauses f.span [] rest).foldlM addClause draft

end TypeDeclaration

/-! ### Enumerations -/

/-- The clauses of an enumeration, as far as they have been read. -/
structure EnumDraft where
  kind : Option LiteralKind := none
  values : List (Form × Form) := []
  deprecated : Option Deprecation := none
  see : List String := []

/-- The kind of literals that a form names. -/
def LiteralKind.ofForm (f : Form) : Meaning LiteralKind :=
  match f.symbol? with
  | some "string" => .ok .string
  | some "number" => .ok .number
  | _ => f.reject .literalKindExpected

/-- The draft with one more clause. -/
def EnumDraft.addClause (d : EnumDraft) (clause : String × Form) : Meaning EnumDraft :=
  let (key, value) := clause
  if key = "of" then do .ok { d with kind := some (← LiteralKind.ofForm value) }
  else if key = "values" then
    match value.map? with
    | some values => .ok { d with values }
    | none => value.reject (.valuesNotMap value.sort)
  else if key = "deprecated" then do .ok { d with deprecated := ← Deprecation.ofForm value }
  else if key = "see" then do .ok { d with see := ← linksOfForm value }
  else value.reject (.unknownClause "enum" key)

/-- The literal that a form denotes. -/
def Literal.ofForm (f : Form) : Meaning Literal :=
  match f with
  | .atom (.string s) _ => .ok (.string s)
  | .atom (.int n) _ => .ok (.int n)
  | .atom (.float x) _ => .ok (.float x)
  | f => f.reject (.notLiteral f.sort)

/-- The symbol and literal that an entry of a map denotes, in an enumeration of the given kind. -/
def EnumSymbol.ofEntry (kind : LiteralKind) (entry : Form × Form) : Meaning EnumSymbol :=
  match entry.1.keyword? with
  | none => entry.1.reject (.symbolNotKeyword entry.1.sort)
  | some symbol => do
    let value ← Literal.ofForm entry.2
    if value.kind = kind then .ok ⟨symbol, value⟩
    else entry.2.reject (.literalKindMismatch symbol)

/-- The enumeration that a form denotes. -/
def Enumeration.ofForm (f : Form) : Meaning Enumeration := do
  let items ← f.expectHead "enum:"
  let (name, rest) ← Form.takeName f.span "enum:" items
  let draft ← (← Form.clauses f.span [] rest).foldlM EnumDraft.addClause {}
  match draft.kind with
  | none => f.reject .literalKindMissing
  | some kind =>
    let symbols ← draft.values.mapM (EnumSymbol.ofEntry kind)
    .ok ⟨name, kind, symbols, draft.deprecated, draft.see⟩

/-! ### Augmentations -/

/-- The augmentation with one more clause. -/
def Augmentation.addClause (a : Augmentation) (clause : String × Form) : Meaning Augmentation :=
  let (key, value) := clause
  if key = "members" then do .ok { a with members := ← Member.listOfForm value }
  else value.reject (.unknownClause "augment" key)

/-- The augmentation that a form denotes. -/
def Augmentation.ofForm (f : Form) : Meaning Augmentation := do
  let items ← f.expectHead "augment:"
  let (target, rest) ← Form.takeName f.span "augment:" items
  (← Form.clauses f.span [] rest).foldlM Augmentation.addClause ⟨target, []⟩

/-! ### Any declaration -/

namespace Declaration

/-- The declaration that a form denotes, if its head is one of a declaration. -/
def ofForm? (f : Form) : Meaning (Option Declaration) :=
  let type (kind : TypeKind) : Meaning (Option Declaration) := do
    .ok (some (.type (← TypeDeclaration.ofForm kind f)))
  match f.head? with
  | some "class:" => type .classLike
  | some "interface:" => type .interface
  | some "record:" => type .record
  | some "typedef:" => type .typedef
  | some "enum:" => do .ok (some (.enum (← Enumeration.ofForm f)))
  | some "augment:" => do .ok (some (.augment (← Augmentation.ofForm f)))
  | _ => .ok none

/-- The declaration that a form denotes. -/
def ofForm (f : Form) : Meaning Declaration := do
  match ← ofForm? f with
  | some declaration => .ok declaration
  | none =>
    match f.head? with
    | some head => f.reject (.unknownDeclaration head)
    | none => f.reject (.notDeclaration f.sort)

end Declaration

/-- The declaration that a form denotes, with the span of the form. -/
def Declared.ofForm (f : Form) : Meaning Declared := do
  .ok ⟨← Declaration.ofForm f, f.span⟩

/-- The declarations that forms denote and the faults of the others, both in order. -/
def Declared.ofForms : List Form → List Declared × List FaultAt
  | [] => ([], [])
  | f :: fs =>
    let (declared, faults) := ofForms fs
    match Declared.ofForm f with
    | .ok d => (d :: declared, faults)
    | .error fault => (declared, fault :: faults)

end ApiCatalog
