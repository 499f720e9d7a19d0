import ApiCatalog.Catalog.Validation
import ApiCatalog.Proofs.Expansion
import ApiCatalog.Proofs.ShadowedMembers

/-!
# What validation finds

A catalog is sound if its chains of parents end, what it refers to is declared, no name is declared
twice and every member fits in the place of the one that it shadows. The declarations alone say at
which sites that has to be looked at; every site where it fails has one problem, in the order of the
declarations, and there are no other problems. So a catalog without problems is sound.

Main definitions: `Catalog.IsSound`, `Catalog.sites`, `Catalog.Meets`, `Catalog.problemAt?`.
Main statement: `Catalog.problems_spec`.
-/

namespace ApiCatalog

open Relation

/-! ### Names in declarations -/

/-- Whether the name occurs in the type, at any depth. -/
inductive TypeExpr.Mentions (name : String) : TypeExpr → Prop
  | named : Mentions name (.named name)
  | nullable {t : TypeExpr} (h : Mentions name t) : Mentions name (.nullable t)
  | nonNull {t : TypeExpr} (h : Mentions name t) : Mentions name (.nonNull t)
  | array {t : TypeExpr} (h : Mentions name t) : Mentions name (.array t)
  | promise {t : TypeExpr} (h : Mentions name t) : Mentions name (.promise t)
  | union {ts : List TypeExpr} {t : TypeExpr} (ht : t ∈ ts) (h : Mentions name t) :
      Mentions name (.union ts)
  | param {ps : List (TypeExpr × Bool)} {p : TypeExpr × Bool} {returns : TypeExpr} (hp : p ∈ ps)
      (h : Mentions name p.1) : Mentions name (.function ps returns)
  | returns {ps : List (TypeExpr × Bool)} {returns : TypeExpr} (h : Mentions name returns) :
      Mentions name (.function ps returns)
  | field {fs : List (String × TypeExpr)} {f : String × TypeExpr} (hf : f ∈ fs)
      (h : Mentions name f.2) : Mentions name (.record fs)

theorem TypeExpr.mem_mentions_iff {name : String} {t : TypeExpr} :
    name ∈ t.mentions ↔ t.Mentions name := by
  rw [mem_mentions]
  constructor
  · intro h
    induction t with
    | primitive | any | unknown | buffer => simp [parts] at h
    | named =>
      simp only [parts, List.mem_singleton, named.injEq] at h
      exact h ▸ .named
    | nullable t ih => exact .nullable (ih (by simpa [parts] using h))
    | nonNull t ih => exact .nonNull (ih (by simpa [parts] using h))
    | array t ih => exact .array (ih (by simpa [parts] using h))
    | promise t ih => exact .promise (ih (by simpa [parts] using h))
    | union ts ih =>
      simp only [parts, List.mem_cons, reduceCtorEq, false_or, mem_partsOfAll] at h
      obtain ⟨t, ht, h⟩ := h
      exact .union ht (ih t ht h)
    | function ps t ihps ih =>
      simp only [parts, List.mem_cons, reduceCtorEq, false_or, List.mem_append, partsOfParams_eq,
        mem_partsOfAll, List.mem_map] at h
      rcases h with ⟨_, ⟨p, hp, rfl⟩, h⟩ | h
      · exact .param hp (ihps p hp h)
      · exact .returns (ih h)
    | record fs ih =>
      simp only [parts, List.mem_cons, reduceCtorEq, false_or, partsOfFields_eq, mem_partsOfAll,
        List.mem_map] at h
      obtain ⟨_, ⟨f, hf, rfl⟩, h⟩ := h
      exact .field hf (ih f hf h)
  · intro h
    have inside {x u : TypeExpr} (hx : x ∈ u.components) := parts_subset_of_mem_components hx
    induction h with
    | named => exact mem_parts_self _
    | nullable _ ih | nonNull _ ih | array _ ih | promise _ ih =>
      rw [parts]
      exact List.mem_cons_of_mem _ ih
    | @union ts t ht _ ih => exact inside (u := .union ts) ht ih
    | @param ps p returns hp _ ih =>
      exact inside (u := .function ps returns) (List.mem_cons_of_mem _ (List.mem_map_of_mem hp)) ih
    | @returns ps returns _ ih => exact inside (u := .function ps returns) List.mem_cons_self ih
    | @field fs f hf _ ih => exact inside (u := .record fs) (List.mem_map_of_mem hf) ih

/-- The properties that a method changes. -/
def Member.mutates (m : Member) : List String :=
  match m.kind with
  | .property .. => []
  | .method _ _ mutates => mutates

/-- Whether the member is declared with the type: as that of a property, a parameter or a
result. -/
inductive Member.Writes (m : Member) : TypeExpr → Prop
  | property {t : TypeExpr} {isReadonly isConstant : Bool}
      (h : m.kind = .property t isReadonly isConstant) : Writes m t
  | param {p : Parameter} (hp : p ∈ m.params) : Writes m p.type
  | result {t : TypeExpr} (h : m.result? = some t) : Writes m t

theorem Member.writes_iff {m : Member} {t : TypeExpr} :
    m.Writes t ↔ match m.kind with
      | .property type .. => t = type
      | .method params returns _ => (∃ p ∈ params, t = p.type) ∨ t = returns := by
  obtain ⟨name, ⟨type, isReadonly, isConstant⟩ | ⟨params, returns, mutates⟩, deprecated, see⟩ := m
  · constructor
    · rintro (h | hp | h)
      · cases h
        rfl
      · cases hp
      · cases h
    · rintro rfl
      exact .property rfl
  · constructor
    · rintro (h | hp | h)
      · cases h
      · exact .inl ⟨_, hp, rfl⟩
      · cases h
        exact .inr rfl
    · rintro (⟨p, hp, rfl⟩ | rfl)
      · exact .param hp
      · exact .result rfl

/-- Whether the type is declared with the type: as what it stands for, or as that of a parameter of
its constructor or in a member. -/
inductive TypeDeclaration.Writes (d : TypeDeclaration) : TypeExpr → Prop
  | aliased {t : TypeExpr} (h : d.aliased = some t) : Writes d t
  | construction {ps : List Parameter} {p : Parameter} (h : d.constructor = some ps) (hp : p ∈ ps) :
      Writes d p.type
  | member {m : Member} {t : TypeExpr} (hm : m ∈ d.members) (h : m.Writes t) : Writes d t

namespace Catalog

variable {c : Catalog} {name : String} {checkNames : Bool} {d : TypeDeclaration}
  {e : Enumeration} {m : Member}

/-! ### Chains of parents -/

/-- Whether a type has the parent. -/
def Extends (c : Catalog) (name parent : String) : Prop :=
  ∃ d, c.type? name = some d ∧ d.parent = some parent

/-- Whether the chain of parents from a name comes to a type for the second time. -/
def Revisits (c : Catalog) (name : String) : Prop :=
  ∃ n, ReflTransGen c.Extends name n ∧ TransGen c.Extends n n

theorem exists_lineage_of_extends {ds : List TypeDeclaration} (h : Lineage c.types name ds)
    {parent : String} (hp : c.Extends name parent) :
    ∃ es, Lineage c.types parent es ∧ es.length < ds.length := by
  obtain ⟨d, hd, hparent⟩ := hp
  cases h with
  | undeclared absent =>
    rw [type?, absent] at hd
    cases hd
  | root hd' root =>
    rw [type?, hd'] at hd
    cases hd
    rw [root] at hparent
    cases hparent
  | step hd' hp rest =>
    rw [type?, hd'] at hd
    cases hd
    rw [hp] at hparent
    cases hparent
    exact ⟨_, rest, Nat.lt_succ_self _⟩

theorem exists_lineage_of_transGen {ds : List TypeDeclaration} (h : Lineage c.types name ds) {n : String}
    (hn : TransGen c.Extends name n) : ∃ es, Lineage c.types n es ∧ es.length < ds.length := by
  induction hn with
  | single hp => exact exists_lineage_of_extends h hp
  | tail _ hp ih =>
    obtain ⟨es, hes, shorter⟩ := ih
    obtain ⟨fs, hfs, shorter'⟩ := exists_lineage_of_extends hes hp
    exact ⟨fs, hfs, Nat.lt_trans shorter' shorter⟩

theorem revisits_of_revisitFrom? {seen : List String}
    (hseen : ∀ n ∈ seen, TransGen c.Extends n name)
    (h : (revisitFrom? c.types seen name).isSome = true) : c.Revisits name := by
  fun_induction revisitFrom? c.types seen name with
  | case1 seen name met => exact ⟨name, .refl, hseen name met⟩
  | case2 | case3 => cases h
  | case4 seen name _ d declared parent hp _ ih =>
    have up : c.Extends name parent := ⟨d, declared, hp⟩
    have later : ∀ n ∈ name :: seen, TransGen c.Extends n parent := by
      intro n hn
      rcases List.mem_cons.1 hn with rfl | hn
      · exact .single up
      · exact (hseen n hn).tail up
    rw [Option.isSome_map] at h
    obtain ⟨n, hn, again⟩ := ih later h
    exact ⟨n, .head up hn, again⟩

/-- The chain of parents from a name ends exactly if it comes to no type twice. -/
theorem exists_lineage_iff : (∃ ds, Lineage c.types name ds) ↔ ¬c.Revisits name := by
  constructor
  · rintro ⟨ds, hds⟩ ⟨n, hn, again⟩
    have reached : ∃ es, Lineage c.types n es := by
      rcases hn.cases_head with rfl | ⟨parent, hp, hn⟩
      · exact ⟨ds, hds⟩
      · obtain ⟨es, hes, -⟩ := exists_lineage_of_transGen hds (.head' hp hn)
        exact ⟨es, hes⟩
    obtain ⟨es, hes⟩ := reached
    obtain ⟨fs, hfs, shorter⟩ := exists_lineage_of_transGen hes again
    rw [hes.unique hfs] at shorter
    exact Nat.lt_irrefl _ shorter
  · intro h
    cases found : revisitFrom? c.types [] name with
    | none => exact exists_lineage_of_revisitFrom? found
    | some path => exact absurd (@revisits_of_revisitFrom? c name [] (by simp) (by rw [found]; rfl)) h

theorem cycle?_eq_none_iff (hkeyed : IsKeyed c.types) : c.cycle? name = none ↔ ¬c.Revisits name :=
  (revisitFrom?_eq_none_iff hkeyed).trans exists_lineage_iff

/-! ### Sound catalogs -/

/-- Whether a reference leads to a declaration: a type or an enumeration, a member that a type has
or inherits, or a symbol of an enumeration. -/
def Resolves (c : Catalog) (r : Reference) : Prop :=
  match r.member with
  | none => c.contains r.type = true
  | some member =>
    (∃ found, c.memberNamed r.type member = .ok found) ∨
      ∃ e, c.enum? r.type = some e ∧ ∃ v ∈ e.symbols, v.name = member

/-- Whether a type has or inherits the property, and it can be assigned. -/
def IsMutable (c : Catalog) (owner property : String) : Prop :=
  ∃ found, c.memberNamed owner property = .ok found ∧ found.member.isMethod = false ∧
    found.member.isReadonly = false

/-- Whether a member of a type, if it shadows an inherited one, fits in its place. -/
def Conforms (c : Catalog) (d : TypeDeclaration) (m : Member) : Prop :=
  ∀ found, c.inheritedMember? d.name m.name = some found →
    c.overrideFault? found.member m = none

/-- Whether a type can mention the name: a declared one, or that of a type parameter. -/
def IsKnown (c : Catalog) (d : TypeDeclaration) (name : String) : Prop :=
  c.contains name = true ∨ name ∈ d.template

/-- What is demanded of a type. -/
structure IsSoundType (c : Catalog) (checkNames : Bool) (d : TypeDeclaration) : Prop where
  parent : ∀ name, d.parent = some name → c.types.contains name = true
  chain : ¬c.Revisits d.name
  capability : ∀ name ∈ d.capabilities, c.types.contains name = true
  replacement : ∀ r, d.deprecated.bind (·.replacement) = some r → c.Resolves r
  distinct : (d.members.map (·.name)).Nodup
  memberReplacement : ∀ m ∈ d.members, ∀ r, m.deprecated.bind (·.replacement) = some r →
    c.Resolves r
  mutation : ∀ m ∈ d.members, ∀ property ∈ m.mutates, c.IsMutable d.name property
  conformance : ∀ m ∈ d.members, c.Conforms d m
  names : checkNames = true → ∀ t, d.Writes t → ∀ name, t.Mentions name → c.IsKnown d name

/-- What is demanded of an enumeration. -/
structure IsSoundEnum (c : Catalog) (e : Enumeration) : Prop where
  distinct : (e.symbols.map (·.name)).Nodup
  replacement : ∀ r, e.deprecated.bind (·.replacement) = some r → c.Resolves r

/-- What is demanded of a catalog; `checkNames` says whether of the names in its types too. -/
structure IsSound (c : Catalog) (checkNames : Bool) : Prop where
  type : ∀ d ∈ c.types.values, c.IsSoundType checkNames d
  enum : ∀ e ∈ c.enums.values, c.IsSoundEnum e

/-! ### Sites -/

/-- A place in the declarations of a catalog where something can be wrong. -/
inductive Site
  /-- The chain of parents from a type. -/
  | chain (d : TypeDeclaration)
  | parent (d : TypeDeclaration) (name : String)
  | capability (d : TypeDeclaration) (name : String)
  /-- What replaces the declaration or, in it, the deprecated holder. -/
  | replacement (declaration holder : String) (r : Reference)
  /-- A name in a type that the holder writes. -/
  | mention (d : TypeDeclaration) (holder name : String)
  /-- A member behind others of the given names. -/
  | member (d : TypeDeclaration) (before : List String) (m : Member)
  /-- A property that a method changes. -/
  | mutation (d : TypeDeclaration) (m : Member) (property : String)
  /-- A member in the place of an inherited one. -/
  | override (d : TypeDeclaration) (m : Member)
  /-- A symbol behind others of the given names. -/
  | symbol (e : Enumeration) (before : List String) (v : EnumSymbol)

/-- Whether nothing is wrong at a site. -/
def Meets (c : Catalog) : Site → Prop
  | .chain d => ¬c.Revisits d.name
  | .parent _ name | .capability _ name => c.types.contains name = true
  | .replacement _ _ r => c.Resolves r
  | .mention d _ name => c.IsKnown d name
  | .member _ before m => m.name ∉ before
  | .mutation d _ property => c.IsMutable d.name property
  | .override d m => c.Conforms d m
  | .symbol _ before v => v.name ∉ before

/-- The problem at a site where something is wrong. -/
def problemAt? (c : Catalog) : Site → Option Problem
  | .chain d => (c.cycle? d.name).map fun path => problemIn d.name (.cyclicInheritance d.name path)
  | .parent d name =>
    if c.types.contains name then none
    else some (problemIn d.name (.unresolvedReference d.name name .parent))
  | .capability d name =>
    if c.types.contains name then none
    else some (problemIn d.name (.unresolvedReference d.name name .capability))
  | .replacement declaration holder r =>
    if c.refersToDeclared r then none
    else some (problemIn declaration (.unresolvedReference holder r.text .replacement))
  | .mention d holder name =>
    if c.contains name || d.hasTypeParameter name then none
    else some (problemIn d.name (.unknownTypeReference holder name))
  | .member d before m =>
    if before.contains m.name then some (problemIn d.name (.duplicateMember d.name m.name))
    else none
  | .mutation d m property =>
    match c.memberNamed d.name property with
    | .error _ =>
      some (problemIn d.name
        (.unresolvedReference (d.name ++ "/" ++ m.name) property .mutatedProperty))
    | .ok found =>
      if found.member.isReadonly then
        some (problemIn d.name (.readOnlyMutation d.name m.name property))
      else if found.member.isMethod then
        some (problemIn d.name
          (.unresolvedReference (d.name ++ "/" ++ m.name) property .mutatedProperty))
      else none
  | .override d m =>
    (c.inheritedMember? d.name m.name).bind fun found =>
      (c.overrideFault? found.member m).map fun fault =>
        problemIn d.name (.invalidOverride d.name m.name found.owner.name fault.message)
  | .symbol e before v =>
    if before.contains v.name then some (problemIn e.name (.duplicateEnumValue e.name v.name))
    else none

/-- The site of what replaces a deprecated holder. -/
def replacementSites (declaration holder : String) (deprecated : Option Deprecation) : List Site :=
  (deprecated.bind (·.replacement)).toList.map (.replacement declaration holder)

/-- The sites of the names in a type. -/
def mentionSites (checkNames : Bool) (d : TypeDeclaration) (holder : String) (t : TypeExpr) :
    List Site :=
  if checkNames then t.mentions.map (.mention d holder) else []

/-- The sites of what a member is. -/
def memberKindSites (checkNames : Bool) (d : TypeDeclaration) (m : Member) : List Site :=
  let holder := d.name ++ "/" ++ m.name
  match m.kind with
  | .property type .. => mentionSites checkNames d holder type
  | .method params returns mutates =>
    params.flatMap (fun p => mentionSites checkNames d holder p.type) ++
      mentionSites checkNames d holder returns ++ mutates.map (.mutation d m)

/-- The sites of members, given the names of those before. A repeated member has no others. -/
def membersSites (checkNames : Bool) (d : TypeDeclaration) (before : List String) :
    List Member → List Site
  | [] => []
  | m :: ms =>
    .member d before m ::
      if before.contains m.name then membersSites checkNames d before ms
      else
        replacementSites d.name (d.name ++ "/" ++ m.name) m.deprecated ++
          memberKindSites checkNames d m ++ .override d m ::
          membersSites checkNames d (m.name :: before) ms

/-- The sites of a type. -/
def typeSites (checkNames : Bool) (d : TypeDeclaration) : List Site :=
  .chain d :: d.parent.toList.map (.parent d) ++ d.capabilities.map (.capability d) ++
    replacementSites d.name d.name d.deprecated ++
    d.aliased.toList.flatMap (mentionSites checkNames d d.name) ++
    (d.constructor.getD []).flatMap (fun p => mentionSites checkNames d d.name p.type) ++
    membersSites checkNames d [] d.members

/-- The sites of symbols, given those before. -/
def symbolSites (e : Enumeration) (before : List String) : List EnumSymbol → List Site
  | [] => []
  | v :: vs =>
    .symbol e before v ::
      symbolSites e (if before.contains v.name then before else v.name :: before) vs

/-- The sites of an enumeration. -/
def enumSites (e : Enumeration) : List Site :=
  symbolSites e [] e.symbols ++ replacementSites e.name e.name e.deprecated

/-- All sites of a catalog, in the order of its declarations. -/
def sites (c : Catalog) (checkNames : Bool) : List Site :=
  c.types.values.flatMap (typeSites checkNames) ++ c.enums.values.flatMap enumSites

/-! ### One problem for each site where something is wrong -/

theorem refersToDeclared_iff {r : Reference} : c.refersToDeclared r = true ↔ c.Resolves r := by
  obtain ⟨type, _ | member⟩ := r
  · rfl
  · have found : (c.memberNamed type member).isOk = true ↔
        ∃ found, c.memberNamed type member = .ok found := by
      cases c.memberNamed type member <;> simp [Except.isOk, Except.toBool]
    have literal : ((c.enum? type).bind (·.literal? member)).isSome = true ↔
        ∃ e, c.enum? type = some e ∧ ∃ v ∈ e.symbols, v.name = member := by
      simp [Option.isSome_bind, Enumeration.literal?, Option.any_eq_true]
    simp only [refersToDeclared, Resolves, Bool.or_eq_true, found, literal]

theorem problemAt?_eq_none_iff (hkeyed : IsKeyed c.types) (s : Site) :
    c.problemAt? s = none ↔ c.Meets s := by
  cases s with
  | chain d => simp only [problemAt?, Meets, Option.map_eq_none_iff, cycle?_eq_none_iff hkeyed]
  | parent | capability => simp [problemAt?, Meets]
  | replacement => simp [problemAt?, Meets, refersToDeclared_iff]
  | mention d _ name =>
    cases hname : c.contains name <;>
      simp [problemAt?, Meets, IsKnown, TypeDeclaration.hasTypeParameter, hname]
  | member | symbol => simp [problemAt?, Meets]
  | mutation d m property =>
    simp only [problemAt?, Meets, IsMutable]
    cases c.memberNamed d.name property with
    | error problem => simp
    | ok found =>
      cases hreadonly : found.member.isReadonly <;> cases hmethod : found.member.isMethod <;>
        simp [hreadonly, hmethod]
  | override d m => simp [problemAt?, Meets, Conforms, Option.bind_eq_none_iff]

theorem deprecationProblems_eq (c : Catalog) (declaration holder : String)
    (deprecated : Option Deprecation) :
    c.deprecationProblems declaration holder deprecated =
      (replacementSites declaration holder deprecated).filterMap c.problemAt? := by
  rw [deprecationProblems, replacementSites]
  cases deprecated.bind (·.replacement) with
  | none => rfl
  | some r =>
    simp only [problemAt?, Option.toList_some, List.map_cons, List.map_nil, List.filterMap_cons,
      List.filterMap_nil]
    split <;> rfl

/-- The problems of names are those of the ones that do not pass. -/
theorem filterMap_ite_none (passes : String → Bool) (problem : String → Problem)
    (names : List String) :
    names.filterMap (fun name => if passes name then none else some (problem name)) =
      (names.filter fun name => !passes name).map problem := by
  rw [← List.filterMap_eq_map, List.filterMap_filter]
  refine List.filterMap_congr fun name _ => ?_
  cases passes name <;> rfl

theorem typeExprProblems_eq (c : Catalog) (checkNames : Bool) (d : TypeDeclaration)
    (holder : String) (t : TypeExpr) :
    c.typeExprProblems checkNames d holder t =
      (mentionSites checkNames d holder t).filterMap c.problemAt? := by
  rw [typeExprProblems, mentionSites]
  split
  · simp only [unknownNames, ← Bool.not_or, List.filterMap_map]
    exact (filterMap_ite_none _ _ t.mentions).symm
  · rfl

theorem mutationProblems_eq (c : Catalog) (d : TypeDeclaration) (m : Member) (property : String) :
    c.mutationProblems d.name m.name property =
      (c.problemAt? (.mutation d m property)).toList := by
  simp only [mutationProblems, problemAt?]
  cases c.memberNamed d.name property with
  | error problem => rfl
  | ok found =>
    dsimp only
    split
    · rfl
    · split <;> rfl

theorem memberKindProblems_eq (c : Catalog) (checkNames : Bool) (d : TypeDeclaration) (m : Member) :
    c.memberKindProblems checkNames d m =
      (memberKindSites checkNames d m).filterMap c.problemAt? := by
  rw [memberKindProblems, memberKindSites]
  cases m.kind with
  | property type => exact typeExprProblems_eq c checkNames d _ type
  | method params returns mutates =>
    have changed : (mutates.map (Site.mutation d m)).filterMap c.problemAt? =
        mutates.flatMap (c.mutationProblems d.name m.name) := by
      rw [List.filterMap_map, List.filterMap_eq_flatMap_toList]
      exact congrArg mutates.flatMap (funext fun property => (mutationProblems_eq c d m property).symm)
    simp only [List.filterMap_append, List.filterMap_flatMap, ← typeExprProblems_eq, changed]

section Built

variable (h : c.IsBuilt) (hd : c.type? d.name = some d)
include h hd

theorem IsBuilt.overrideProblems_eq (hm : m ∈ d.members) :
    c.overrideProblems d.name m = (c.problemAt? (.override d m)).toList := by
  rw [overrideProblems, h.shadowedOwner?_eq hd hm, problemAt?]
  cases found : c.inheritedMember? d.name m.name with
  | none => rfl
  | some inherited =>
    obtain ⟨hdeclared, hmember⟩ := of_inheritedMember? h.isKeyed found
    simp only [Option.map_some, hdeclared, Option.bind_some, hmember]
    cases c.overrideFault? inherited.member m <;> rfl

theorem IsBuilt.membersProblems_eq (checkNames : Bool) (before : List String) :
    ∀ ms : List Member, ms ⊆ d.members → c.membersProblems checkNames d before ms =
      (membersSites checkNames d before ms).filterMap c.problemAt?
  | [], _ => rfl
  | m :: ms, hms => by
    obtain ⟨hm, hms⟩ := List.cons_subset.1 hms
    rw [membersProblems, membersSites, List.filterMap_cons, problemAt?]
    split
    · rw [membersProblems_eq checkNames before ms hms]
    · simp only [memberProblems, deprecationProblems_eq, memberKindProblems_eq,
        h.overrideProblems_eq hd hm, membersProblems_eq checkNames (m.name :: before) ms hms,
        List.filterMap_append, List.filterMap_cons]
      cases c.problemAt? (.override d m) <;> simp

/-- A parent that is not declared ends the chain, so that there is one problem at most. -/
theorem IsBuilt.parentProblems_eq :
    c.parentProblems d =
      (.chain d :: d.parent.toList.map (Site.parent d)).filterMap c.problemAt? := by
  have ended (parent : String) (hp : d.parent = some parent)
      (absent : c.types.contains parent = false) : c.cycle? d.name = none := by
    rw [cycle?_eq_none_iff h.isKeyed, ← exists_lineage_iff]
    exact ⟨[d], .step hd hp (.undeclared (OrderedMap.get?_of_not_contains absent))⟩
  rw [parentProblems, List.filterMap_cons, problemAt?]
  cases hp : d.parent with
  | none => cases c.cycle? d.name <;> rfl
  | some parent =>
    rw [Option.toList_some, List.map_singleton, List.filterMap_cons, List.filterMap_nil, problemAt?]
    cases hdeclared : c.types.contains parent with
    | true => cases c.cycle? d.name <;> simp [hdeclared]
    | false => simp [hdeclared, ended parent hp hdeclared]

theorem IsBuilt.typeProblems_eq (checkNames : Bool) :
    c.typeProblems checkNames d = (typeSites checkNames d).filterMap c.problemAt? := by
  have capabilities : c.capabilityProblems d =
      (d.capabilities.map (Site.capability d)).filterMap c.problemAt? := by
    rw [capabilityProblems, List.filterMap_map]
    exact (filterMap_ite_none _ _ d.capabilities).symm
  rw [typeProblems, typeSites, h.parentProblems_eq hd, capabilities,
    h.membersProblems_eq hd checkNames [] d.members (List.Subset.refl _)]
  simp only [List.filterMap_append, List.filterMap_flatMap, ← typeExprProblems_eq,
    ← deprecationProblems_eq]

end Built

theorem symbolProblems_eq (c : Catalog) (e : Enumeration) (before : List String)
    (vs : List EnumSymbol) :
    symbolProblems e.name before vs = (symbolSites e before vs).filterMap c.problemAt? := by
  induction vs generalizing before with
  | nil => rfl
  | cons v vs ih =>
    rw [symbolProblems, symbolSites, List.filterMap_cons, problemAt?]
    split <;> simp only [ih]

theorem enumProblems_eq (c : Catalog) (e : Enumeration) :
    c.enumProblems e = (enumSites e).filterMap c.problemAt? := by
  rw [enumProblems, enumSites, symbolProblems_eq c, deprecationProblems_eq, List.filterMap_append]

theorem IsBuilt.problems_eq (h : c.IsBuilt) (checkNames : Bool) :
    c.problems checkNames = (c.sites checkNames).filterMap c.problemAt? := by
  have types : c.types.values.flatMap (c.typeProblems checkNames) =
      (c.types.values.flatMap (typeSites checkNames)).filterMap c.problemAt? := by
    rw [List.filterMap_flatMap]
    refine List.flatMap_congr fun d hd => ?_
    exact h.typeProblems_eq (type?_of_mem_values h.isKeyed hd) checkNames
  have enums : c.enums.values.flatMap c.enumProblems =
      (c.enums.values.flatMap enumSites).filterMap c.problemAt? := by
    rw [List.filterMap_flatMap]
    exact congrArg c.enums.values.flatMap (funext (enumProblems_eq c))
  rw [problems, sites, List.filterMap_append, types, enums]

/-! ### A catalog without problems is sound -/

theorem forall_replacementSites {declaration holder : String} {deprecated : Option Deprecation} :
    (∀ s ∈ replacementSites declaration holder deprecated, c.Meets s) ↔
      ∀ r, deprecated.bind (·.replacement) = some r → c.Resolves r := by
  simp [replacementSites, Meets]

theorem forall_mentionSites {holder : String} {t : TypeExpr} :
    (∀ s ∈ mentionSites checkNames d holder t, c.Meets s) ↔
      (checkNames = true → ∀ name, t.Mentions name → c.IsKnown d name) := by
  cases checkNames <;> simp [mentionSites, Meets, TypeExpr.mem_mentions_iff]

theorem forall_memberKindSites :
    (∀ s ∈ memberKindSites checkNames d m, c.Meets s) ↔
      (checkNames = true → ∀ t, m.Writes t → ∀ name, t.Mentions name → c.IsKnown d name) ∧
        ∀ property ∈ m.mutates, c.IsMutable d.name property := by
  simp only [memberKindSites, Member.writes_iff, Member.mutates]
  cases m.kind with
  | property type =>
    rw [forall_mentionSites]
    simp
  | method params returns mutates =>
    simp only [List.forall_mem_append, List.forall_mem_flatMap, forall_mentionSites,
      List.forall_mem_map]
    refine and_congr ⟨?_, ?_⟩ .rfl
    · rintro ⟨hparams, hreturns⟩ hnames t (⟨p, hp, rfl⟩ | rfl)
      · exact hparams p hp hnames
      · exact hreturns hnames
    · intro h
      exact ⟨fun p hp hnames => h hnames _ (.inl ⟨p, hp, rfl⟩), fun hnames => h hnames _ (.inr rfl)⟩

/-- Names that come behind others and one more do not repeat it either. -/
theorem forall_not_mem_cons_iff {α : Type} {nameOf : α → String} {before : List String} {x : α}
    {xs : List α} : (∀ y ∈ xs, nameOf y ∉ nameOf x :: before) ↔
      nameOf x ∉ xs.map nameOf ∧ ∀ y ∈ xs, nameOf y ∉ before := by
  simp [not_or, forall_and, eq_comm]

/-- Every member is looked at as long as no name comes again. -/
theorem forall_membersSites {before : List String} {ms : List Member} :
    (∀ s ∈ membersSites checkNames d before ms, c.Meets s) ↔
      (∀ m ∈ ms, m.name ∉ before) ∧ (ms.map (·.name)).Nodup ∧ ∀ m ∈ ms,
        (∀ r, m.deprecated.bind (·.replacement) = some r → c.Resolves r) ∧
        (∀ s ∈ memberKindSites checkNames d m, c.Meets s) ∧ c.Conforms d m := by
  induction ms generalizing before with
  | nil => simp [membersSites]
  | cons m ms ih =>
    rw [membersSites, List.forall_mem_cons]
    by_cases hrepeated : m.name ∈ before
    · refine iff_of_false (fun h => h.1 hrepeated) fun h => ?_
      exact h.1 m List.mem_cons_self hrepeated
    · rw [if_neg (by simpa using hrepeated), List.forall_mem_append, List.forall_mem_append,
        List.forall_mem_cons, ih, forall_not_mem_cons_iff, forall_replacementSites,
        List.forall_mem_cons, List.forall_mem_cons, List.map_cons, List.nodup_cons]
      constructor
      · rintro ⟨hm, ⟨hr, hkind⟩, hconforms, ⟨hnew, hbefore⟩, hdistinct, hms⟩
        exact ⟨⟨hm, hbefore⟩, ⟨hnew, hdistinct⟩, ⟨hr, hkind, hconforms⟩, hms⟩
      · rintro ⟨⟨hm, hbefore⟩, ⟨hnew, hdistinct⟩, ⟨hr, hkind, hconforms⟩, hms⟩
        exact ⟨hm, ⟨hr, hkind⟩, hconforms, ⟨hnew, hbefore⟩, hdistinct, hms⟩

theorem forall_symbolSites {before : List String} {vs : List EnumSymbol} :
    (∀ s ∈ symbolSites e before vs, c.Meets s) ↔
      (∀ v ∈ vs, v.name ∉ before) ∧ (vs.map (·.name)).Nodup := by
  induction vs generalizing before with
  | nil => simp [symbolSites]
  | cons v vs ih =>
    rw [symbolSites, List.forall_mem_cons, ih]
    by_cases hrepeated : v.name ∈ before
    · refine iff_of_false (fun h => h.1 hrepeated) fun h => ?_
      exact h.1 v List.mem_cons_self hrepeated
    · rw [if_neg (by simpa using hrepeated), forall_not_mem_cons_iff, List.forall_mem_cons,
        List.map_cons, List.nodup_cons]
      constructor
      · rintro ⟨hv, ⟨hnew, hbefore⟩, hdistinct⟩
        exact ⟨⟨hv, hbefore⟩, hnew, hdistinct⟩
      · rintro ⟨⟨hv, hbefore⟩, hnew, hdistinct⟩
        exact ⟨hv, ⟨hnew, hbefore⟩, hdistinct⟩

theorem forall_typeSites :
    (∀ s ∈ typeSites checkNames d, c.Meets s) ↔ c.IsSoundType checkNames d := by
  simp only [typeSites, List.forall_mem_append, List.forall_mem_cons, List.forall_mem_map,
    List.forall_mem_flatMap, forall_replacementSites, forall_mentionSites, forall_membersSites,
    forall_memberKindSites, Option.mem_toList]
  constructor
  · rintro ⟨⟨⟨⟨⟨⟨hchain, hparent⟩, hcapability⟩, hreplacement⟩, haliased⟩, hconstructor⟩, -,
      hdistinct, hmembers⟩
    refine ⟨hparent, hchain, hcapability, hreplacement, hdistinct, fun m hm => (hmembers m hm).1,
      fun m hm => (hmembers m hm).2.1.2, fun m hm => (hmembers m hm).2.2, ?_⟩
    rintro hnames t (h | ⟨h, hp⟩ | ⟨hm, h⟩)
    · exact haliased t h hnames
    · exact hconstructor _ (by simpa [h] using hp) hnames
    · exact (hmembers _ hm).2.1.1 hnames t h
  · intro h
    refine ⟨⟨⟨⟨⟨⟨h.chain, h.parent⟩, h.capability⟩, h.replacement⟩, fun t ht hnames => ?_⟩,
      fun p hp hnames => ?_⟩, by simp, h.distinct, fun m hm => ⟨h.memberReplacement m hm,
        ⟨fun hnames t ht => h.names hnames t (.member hm ht), h.mutation m hm⟩,
        h.conformance m hm⟩⟩
    · exact h.names hnames t (.aliased ht)
    · cases hps : d.constructor with
      | none => simp [hps] at hp
      | some ps => exact h.names hnames _ (.construction hps (by simpa [hps] using hp))

theorem forall_enumSites : (∀ s ∈ enumSites e, c.Meets s) ↔ c.IsSoundEnum e := by
  rw [enumSites, List.forall_mem_append, forall_symbolSites, forall_replacementSites]
  refine ⟨fun h => ⟨h.1.2, h.2⟩, fun h => ⟨⟨by simp, h.distinct⟩, h.replacement⟩⟩

theorem forall_sites : (∀ s ∈ c.sites checkNames, c.Meets s) ↔ c.IsSound checkNames := by
  simp only [sites, List.forall_mem_append, List.forall_mem_flatMap, forall_typeSites,
    forall_enumSites]
  exact ⟨fun h => ⟨h.1, h.2⟩, fun h => ⟨h.type, h.enum⟩⟩

/-- A catalog without problems is sound, and a sound one has none. -/
theorem IsBuilt.problems_eq_nil_iff (h : c.IsBuilt) :
    c.problems checkNames = [] ↔ c.IsSound checkNames := by
  rw [h.problems_eq, List.filterMap_eq_nil_iff, ← forall_sites]
  exact forall₂_congr fun s _ => problemAt?_eq_none_iff h.isKeyed s

/-- A catalog has no problems exactly if it is sound. In any case its problems are those of its
sites, in the order of the declarations: one for each site where something is wrong, and none for
the others. -/
theorem problems_spec (h : c.IsBuilt) (checkNames : Bool) :
    (c.problems checkNames = [] ↔ c.IsSound checkNames) ∧
      c.problems checkNames = (c.sites checkNames).filterMap c.problemAt? ∧
      ∀ s ∈ c.sites checkNames, c.problemAt? s = none ↔ c.Meets s :=
  ⟨h.problems_eq_nil_iff, h.problems_eq checkNames, fun s _ => problemAt?_eq_none_iff h.isKeyed s⟩

/-- A name for the lists of a type that is not declared is sound as long as names in types are not
looked at, and one that is its own parent is not. -/
theorem problems_spec_undeclared :
    let sketch := TypeDeclaration.ofTypedef "Sketch" (.array (.named "Line"))
    let line : TypeDeclaration := (TypeDeclaration.ofInterface "Line").withParent "Line"
    (ofDeclarations [sketch] []).IsSound false ∧ ¬(ofDeclarations [sketch] []).IsSound true ∧
      ¬(ofDeclarations [sketch, line] []).IsSound false := by
  intro sketch line
  have alone := problems_spec (.ofDeclarations [sketch] [])
  have both := problems_spec (.ofDeclarations [sketch, line] []) false
  refine ⟨(alone false).1.1 (by decide +kernel), fun h => ?_, fun h => ?_⟩
  · exact absurd ((alone true).1.2 h) (by decide +kernel)
  · exact absurd (both.1.2 h) (by decide +kernel)

end Catalog

end ApiCatalog
