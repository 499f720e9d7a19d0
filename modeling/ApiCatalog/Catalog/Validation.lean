import ApiCatalog.Catalog.Assignable

/-!
# Validation of a catalog

Every problem of a catalog, type by type and enumeration by enumeration in their order:
parents and capabilities that are not declared, cyclic chains of parents, replacements that
lead nowhere, repeated members and symbols, methods that change what cannot be assigned,
members that do not fit in the place of inherited ones, and, if asked for, names in type
expressions that are not declared. Each problem names the declaration it was found in.

Main definition: `Catalog.problems`.
-/

namespace ApiCatalog.Catalog

/-- The problem in a declaration. -/
def problemIn (declaration : String) (kind : Problem.Kind) : Problem :=
  ⟨kind, some { declaration := some declaration }⟩

/-- Whether a replacement names something that is declared: a type or enumeration, a member of a
type, or a symbol of an enumeration. -/
def refersToDeclared (c : Catalog) (r : Reference) : Bool :=
  match r.member with
  | none => c.contains r.type
  | some member =>
    (c.memberNamed r.type member).isOk ||
      ((c.enum? r.type).bind (·.literal? member)).isSome

/-- The problem of a deprecation whose replacement is not declared. -/
def deprecationProblems (c : Catalog) (owner holder : String) (deprecated : Option Deprecation) :
    List Problem :=
  match deprecated.bind (·.replacement) with
  | none => []
  | some r =>
    if c.refersToDeclared r then []
    else [problemIn owner (.unresolvedReference holder r.text .replacement)]

/-- The names in a type expression that are neither declared nor parameters of the type. -/
def unknownNames (c : Catalog) (d : TypeDeclaration) (t : TypeExpr) : List String :=
  t.mentions.filter fun name => !c.contains name && !d.hasTypeParameter name

/-- The problems of a type expression, if names in type expressions are checked. -/
def typeExprProblems (c : Catalog) (checkNames : Bool) (d : TypeDeclaration) (holder : String)
    (t : TypeExpr) : List Problem :=
  if checkNames then
    (c.unknownNames d t).map fun name => problemIn d.name (.unknownTypeReference holder name)
  else []

/-! ### Members -/

/-- The problems of a property that a method changes. -/
def mutationProblems (c : Catalog) (owner method property : String) : List Problem :=
  let unresolved :=
    [problemIn owner (.unresolvedReference (owner ++ "/" ++ method) property .mutatedProperty)]
  match c.memberNamed owner property with
  | .error _ => unresolved
  | .ok found =>
    if found.member.isReadonly then
      [problemIn owner (.readOnlyMutation owner method property)]
    else if found.member.isMethod then unresolved
    else []

/-- The problem of a member that does not fit in the place of an inherited one. -/
def overrideProblems (c : Catalog) (owner : String) (m : Member) : List Problem :=
  match c.shadowedOwner? owner m.name with
  | none => []
  | some ancestor =>
    match (c.type? ancestor).bind (·.member? m.name) with
    | none => []
    | some inherited =>
      match c.overrideFault? inherited m with
      | none => []
      | some fault =>
        [problemIn owner (.invalidOverride owner m.name ancestor fault.message)]

/-- The problems of what a member is. -/
def memberKindProblems (c : Catalog) (checkNames : Bool) (d : TypeDeclaration) (m : Member) :
    List Problem :=
  let holder := d.name ++ "/" ++ m.name
  match m.kind with
  | .property type .. => c.typeExprProblems checkNames d holder type
  | .method params returns mutates =>
    params.flatMap (fun p => c.typeExprProblems checkNames d holder p.type) ++
      c.typeExprProblems checkNames d holder returns ++
      mutates.flatMap (c.mutationProblems d.name m.name)

/-- The problems of a member. -/
def memberProblems (c : Catalog) (checkNames : Bool) (d : TypeDeclaration) (m : Member) :
    List Problem :=
  c.deprecationProblems d.name (d.name ++ "/" ++ m.name) m.deprecated ++
    c.memberKindProblems checkNames d m ++ c.overrideProblems d.name m

/-- The problems of members, given the names of those before. A repeated member is a problem
and has no others. -/
def membersProblems (c : Catalog) (checkNames : Bool) (d : TypeDeclaration) (seen : List String) :
    List Member → List Problem
  | [] => []
  | m :: ms =>
    if seen.contains m.name then
      problemIn d.name (.duplicateMember d.name m.name) ::
        c.membersProblems checkNames d seen ms
    else
      c.memberProblems checkNames d m ++ c.membersProblems checkNames d (m.name :: seen) ms

/-! ### Declarations -/

/-- The problem of a type's chain of parents. -/
def parentProblems (c : Catalog) (d : TypeDeclaration) : List Problem :=
  match c.cycle? d.name with
  | some path => [problemIn d.name (.cyclicInheritance d.name path)]
  | none =>
    match d.parent with
    | none => []
    | some parent =>
      if c.types.contains parent then []
      else [problemIn d.name (.unresolvedReference d.name parent .parent)]

/-- The problems of a type's capabilities. -/
def capabilityProblems (c : Catalog) (d : TypeDeclaration) : List Problem :=
  (d.capabilities.filter fun name => !c.types.contains name).map fun name =>
    problemIn d.name (.unresolvedReference d.name name .capability)

/-- The problems of a type. -/
def typeProblems (c : Catalog) (checkNames : Bool) (d : TypeDeclaration) : List Problem :=
  c.parentProblems d ++ c.capabilityProblems d ++
    c.deprecationProblems d.name d.name d.deprecated ++
    d.aliased.toList.flatMap (c.typeExprProblems checkNames d d.name) ++
    (d.constructor.getD []).flatMap (fun p => c.typeExprProblems checkNames d d.name p.type) ++
    c.membersProblems checkNames d [] d.members

/-- The problems of symbols, given those before. -/
def symbolProblems (enum : String) (seen : List String) : List EnumSymbol → List Problem
  | [] => []
  | v :: vs =>
    if seen.contains v.name then
      problemIn enum (.duplicateEnumValue enum v.name) :: symbolProblems enum seen vs
    else symbolProblems enum (v.name :: seen) vs

/-- The problems of an enumeration. -/
def enumProblems (c : Catalog) (d : Enumeration) : List Problem :=
  symbolProblems d.name [] d.symbols ++ c.deprecationProblems d.name d.name d.deprecated

/-- Every problem of a catalog; `checkNames` says whether names in type expressions count. -/
def problems (c : Catalog) (checkNames : Bool) : List Problem :=
  c.types.values.flatMap (c.typeProblems checkNames) ++ c.enums.values.flatMap c.enumProblems

end ApiCatalog.Catalog
