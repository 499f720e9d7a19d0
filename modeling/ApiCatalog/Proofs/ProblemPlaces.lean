import ApiCatalog.Proofs.Soundness

/-!
# Where the problems of a catalog are

Every site of a catalog is in one of its declarations, and a problem that is found there names that
declaration. Each type has one site for its chain of parents, and only there can it be found that a
chain does not end; so there is one such problem for each type whose chain comes back to a type, and
no other. What is wrong with the sources of a catalog, that a name is declared again or an
augmentation has no target, is found at no site.

Main statements: `Catalog.IsBuilt.exists_of_mem_problems`,
`Catalog.IsBuilt.filter_problems_cyclicType?`.
-/

namespace ApiCatalog

namespace Problem.Kind

/-- The type of which it is said that its chain of parents revisits a type. -/
def cyclicType? : Kind → Option String
  | .cyclicInheritance type _ => some type
  | _ => none

/-- Whether a name is declared again. -/
def isDuplicate : Kind → Bool
  | .duplicateDeclaration _ => true
  | _ => false

/-- Whether an augmentation has no target. -/
def isUnmatched : Kind → Bool
  | .unresolvedReference _ _ .augmentTarget => true
  | _ => false

/-- Whether the problem is between the declarations of the sources, and not in one of them. -/
def isBetween (k : Kind) : Bool := k.isDuplicate || k.isUnmatched

end Problem.Kind

namespace Catalog

variable {c : Catalog} {checkNames : Bool} {d : TypeDeclaration} {e : Enumeration} {p : Problem}

/-! ### Sites -/

namespace Site

/-- The name of the declaration that a site is in. -/
def declaration : Site → String
  | .chain d | .parent d _ | .capability d _ | .mention d .. | .member d .. | .mutation d ..
  | .override d _ => d.name
  | .replacement declaration .. => declaration
  | .symbol e .. => e.name

/-- Whether a site is in the declaration of the name, but is not the chain of its parents. -/
def IsInside (name : String) (s : Site) : Prop := s.declaration = name ∧ ∀ d, s ≠ .chain d

end Site

section Sites

variable {holder : String} {s : Site}

theorem isInside_of_mem_replacementSites {name : String} {deprecated : Option Deprecation}
    (hs : s ∈ replacementSites name holder deprecated) : s.IsInside name := by
  obtain ⟨r, -, rfl⟩ := List.mem_map.1 hs
  exact ⟨rfl, by simp⟩

theorem isInside_of_mem_mentionSites {t : TypeExpr}
    (hs : s ∈ mentionSites checkNames d holder t) : s.IsInside d.name := by
  unfold mentionSites at hs
  split at hs
  · obtain ⟨name, -, rfl⟩ := List.mem_map.1 hs
    exact ⟨rfl, by simp⟩
  · cases hs

theorem isInside_of_mem_memberKindSites {m : Member}
    (hs : s ∈ memberKindSites checkNames d m) : s.IsInside d.name := by
  unfold memberKindSites at hs
  split at hs
  · exact isInside_of_mem_mentionSites hs
  · rcases List.mem_append.1 hs with hs | hs
    · rcases List.mem_append.1 hs with hs | hs
      · obtain ⟨p, -, hs⟩ := List.mem_flatMap.1 hs
        exact isInside_of_mem_mentionSites hs
      · exact isInside_of_mem_mentionSites hs
    · obtain ⟨property, -, rfl⟩ := List.mem_map.1 hs
      exact ⟨rfl, by simp⟩

theorem isInside_of_mem_membersSites {before : List String} {ms : List Member}
    (hs : s ∈ membersSites checkNames d before ms) : s.IsInside d.name := by
  induction ms generalizing before with
  | nil => cases hs
  | cons m ms ih =>
    unfold membersSites at hs
    rcases List.mem_cons.1 hs with rfl | hs
    · exact ⟨rfl, by simp⟩
    · split at hs
      · exact ih hs
      · rcases List.mem_append.1 hs with hs | hs
        · rcases List.mem_append.1 hs with hs | hs
          · exact isInside_of_mem_replacementSites hs
          · exact isInside_of_mem_memberKindSites hs
        · rcases List.mem_cons.1 hs with rfl | hs
          · exact ⟨rfl, by simp⟩
          · exact ih hs

/-- The sites of a type are the chain of its parents and others inside it. -/
theorem exists_typeSites_eq_cons (checkNames : Bool) (d : TypeDeclaration) :
    ∃ rest, typeSites checkNames d = .chain d :: rest ∧ ∀ s ∈ rest, s.IsInside d.name := by
  refine ⟨d.parent.toList.map (.parent d) ++ d.capabilities.map (.capability d) ++
    replacementSites d.name d.name d.deprecated ++
    d.aliased.toList.flatMap (mentionSites checkNames d d.name) ++
    (d.constructor.getD []).flatMap (fun p => mentionSites checkNames d d.name p.type) ++
    membersSites checkNames d [] d.members, rfl, fun s hs => ?_⟩
  simp only [List.mem_append, List.mem_map, List.mem_flatMap, or_assoc] at hs
  rcases hs with ⟨_, -, rfl⟩ | ⟨_, -, rfl⟩ | hs | ⟨_, -, hs⟩ | ⟨_, -, hs⟩ | hs
  · exact ⟨rfl, by simp⟩
  · exact ⟨rfl, by simp⟩
  · exact isInside_of_mem_replacementSites hs
  · exact isInside_of_mem_mentionSites hs
  · exact isInside_of_mem_mentionSites hs
  · exact isInside_of_mem_membersSites hs

theorem isInside_of_mem_symbolSites {before : List String} {vs : List EnumSymbol}
    (hs : s ∈ symbolSites e before vs) : s.IsInside e.name := by
  induction vs generalizing before with
  | nil => cases hs
  | cons v vs ih =>
    unfold symbolSites at hs
    rcases List.mem_cons.1 hs with rfl | hs
    · exact ⟨rfl, by simp⟩
    · exact ih hs

theorem isInside_of_mem_enumSites (hs : s ∈ enumSites e) : s.IsInside e.name := by
  rcases List.mem_append.1 hs with hs | hs
  · exact isInside_of_mem_symbolSites hs
  · exact isInside_of_mem_replacementSites hs

/-- Every site is in a declaration of the catalog. -/
theorem exists_of_mem_sites (hs : s ∈ c.sites checkNames) :
    (∃ d ∈ c.types.values, s.declaration = d.name) ∨
      ∃ e ∈ c.enums.values, s.declaration = e.name := by
  rcases List.mem_append.1 hs with hs | hs
  · obtain ⟨d, hd, hs⟩ := List.mem_flatMap.1 hs
    obtain ⟨rest, hrest, inside⟩ := exists_typeSites_eq_cons checkNames d
    rw [hrest] at hs
    rcases List.mem_cons.1 hs with rfl | hs
    · exact .inl ⟨d, hd, rfl⟩
    · exact .inl ⟨d, hd, (inside s hs).1⟩
  · obtain ⟨e, he, hs⟩ := List.mem_flatMap.1 hs
    exact .inr ⟨e, he, (isInside_of_mem_enumSites hs).1⟩

/-- What is found at a site is a problem in its declaration. Only at the chain of parents of a type
can it be that this revisits a type. -/
theorem exists_of_problemAt? (h : c.problemAt? s = some p) :
    ∃ kind : Problem.Kind, p = problemIn s.declaration kind ∧ kind.isBetween = false ∧
      ((∃ d, s = .chain d) ∨ kind.cyclicType? = none) := by
  cases s with
  | chain d =>
    obtain ⟨path, -, rfl⟩ := Option.map_eq_some_iff.1 h
    exact ⟨_, rfl, rfl, .inl ⟨d, rfl⟩⟩
  | parent | capability | replacement | mention | member | symbol =>
    rw [problemAt?] at h
    split at h <;> cases h
    exact ⟨_, rfl, rfl, .inr rfl⟩
  | mutation d m property =>
    rw [problemAt?] at h
    split at h
    · cases h
      exact ⟨_, rfl, rfl, .inr rfl⟩
    · split at h
      · cases h
        exact ⟨_, rfl, rfl, .inr rfl⟩
      · split at h <;> cases h
        exact ⟨_, rfl, rfl, .inr rfl⟩
  | override d m =>
    obtain ⟨found, -, h⟩ := Option.bind_eq_some_iff.1 h
    obtain ⟨fault, -, rfl⟩ := Option.map_eq_some_iff.1 h
    exact ⟨_, rfl, rfl, .inr rfl⟩

theorem filterMap_cyclicType?_of_isInside {name : String} {sites : List Site}
    (hsites : ∀ s ∈ sites, s.IsInside name) :
    (sites.filterMap c.problemAt?).filter (·.kind.cyclicType?.isSome) = [] := by
  rw [List.filter_eq_nil_iff]
  intro p hp
  obtain ⟨s, hs, hp⟩ := List.mem_filterMap.1 hp
  obtain ⟨kind, rfl, -, ⟨d, rfl⟩ | hkind⟩ := exists_of_problemAt? hp
  · exact absurd rfl ((hsites _ hs).2 d)
  · simp [problemIn, hkind]

end Sites

/-! ### Problems -/

/-- Every problem of a catalog names the declaration of it that the problem is in. -/
theorem IsBuilt.exists_of_mem_problems (h : c.IsBuilt) (hp : p ∈ c.problems checkNames) :
    ∃ (name : String) (kind : Problem.Kind), p = problemIn name kind ∧
      kind.isBetween = false ∧
      ((∃ d ∈ c.types.values, d.name = name) ∨ ∃ e ∈ c.enums.values, e.name = name) := by
  rw [h.problems_eq] at hp
  obtain ⟨s, hs, hp⟩ := List.mem_filterMap.1 hp
  obtain ⟨kind, rfl, hkind, -⟩ := exists_of_problemAt? hp
  refine ⟨_, _, rfl, hkind, ?_⟩
  rcases exists_of_mem_sites hs with ⟨d, hd, same⟩ | ⟨e, he, same⟩
  · exact .inl ⟨d, hd, same.symm⟩
  · exact .inr ⟨e, he, same.symm⟩

/-- Of the chains of parents there is one problem for each type whose chain revisits a type, in the
order of the types. -/
theorem IsBuilt.filter_problems_cyclicType? (h : c.IsBuilt) (checkNames : Bool) :
    (c.problems checkNames).filter (·.kind.cyclicType?.isSome) =
      c.types.values.filterMap fun d =>
        (c.cycle? d.name).map fun path => problemIn d.name (.cyclicInheritance d.name path) := by
  have type (d : TypeDeclaration) :
      ((typeSites checkNames d).filterMap c.problemAt?).filter (·.kind.cyclicType?.isSome) =
        ((c.cycle? d.name).map fun path =>
          problemIn d.name (.cyclicInheritance d.name path)).toList := by
    obtain ⟨rest, hrest, inside⟩ := exists_typeSites_eq_cons checkNames d
    rw [hrest, List.filterMap_cons, problemAt?]
    cases c.cycle? d.name with
    | none => exact filterMap_cyclicType?_of_isInside inside
    | some path =>
      show _ :: ((rest.filterMap c.problemAt?).filter _) = _
      rw [filterMap_cyclicType?_of_isInside inside]
      rfl
  have enum (e : Enumeration) :
      ((enumSites e).filterMap c.problemAt?).filter (·.kind.cyclicType?.isSome) = [] :=
    filterMap_cyclicType?_of_isInside fun s hs => isInside_of_mem_enumSites hs
  rw [h.problems_eq, sites, List.filterMap_append, List.filter_append, List.filterMap_flatMap,
    List.filterMap_flatMap, List.filter_flatMap, List.filter_flatMap]
  simp only [type, enum]
  rw [List.flatMap_eq_nil_iff.2 fun _ _ => rfl, List.append_nil, ← List.filterMap_eq_flatMap_toList]

end Catalog

end ApiCatalog
