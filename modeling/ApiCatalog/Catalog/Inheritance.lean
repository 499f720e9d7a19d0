import ApiCatalog.Catalog.Basic

/-!
# Chains of parents and the order of search

Following the parents from a type ends at a type without a parent, at a name that is not
declared, or at a type met before, in which case the chain is cyclic.

A member is searched for on a type, then along its chain of parents, and then on the
capabilities of every type on that chain, each with its own chain and capabilities. No type is
searched twice, and nothing is searched through a type whose chain is cyclic.

Main definitions: `Catalog.cycle?`, `Catalog.lookupOrder`. Both end because no name is met
twice; `unmet_lt` says so.
-/

namespace ApiCatalog

/-- How many of the names are not among those seen. -/
def unmet (names seen : List String) : Nat := names.countP (· ∉ seen)

/-- Fewer names are left unmet once one more of them has been seen. -/
theorem unmet_lt {names seen seen' : List String} {name : String} (declared : name ∈ names)
    (new : name ∉ seen) (now : name ∈ seen') (kept : ∀ n ∈ seen, n ∈ seen') :
    unmet names seen' < unmet names seen := by
  induction names with
  | nil => simp at declared
  | cons n ns ih =>
    have le : unmet ns seen' ≤ unmet ns seen :=
      List.countP_mono_left fun m _ h => by
        simp only [decide_eq_true_eq] at h ⊢
        exact fun hm => h (kept m hm)
    simp only [unmet, List.countP_cons, decide_eq_true_eq] at ih le ⊢
    by_cases same : n = name
    · subst same
      rw [if_neg (not_not_intro now), if_pos new]
      omega
    · have less := ih (by simpa [Ne.symm same] using declared)
      by_cases old : n ∈ seen
      · rw [if_neg (not_not_intro (kept n old)), if_neg (not_not_intro old)]
        omega
      · rw [if_pos old]
        split <;> omega

namespace Catalog

/-! ### Cycles -/

/-- The names met when parents are followed from a name, provided that one of them was met
before; the last name is the repeated one. -/
def revisitFrom? (types : OrderedMap TypeDeclaration) (seen : List String) (name : String) :
    Option (List String) :=
  if met : name ∈ seen then some [name]
  else
    match declared : types.get? name with
    | none => none
    | some d =>
      match d.parent with
      | none => none
      | some parent =>
        have : unmet types.entries.names (name :: seen) < unmet types.entries.names seen :=
          unmet_lt (NameMap.contains_iff_mem_names.1
            (by simp only [NameMap.contains]; unfold OrderedMap.get? at declared; simp [declared]))
            met (by simp) (by simp +contextual)
        (revisitFrom? types (name :: seen) parent).map (name :: ·)
termination_by unmet types.entries.names seen

/-- The path along the parents of a type up to the first repeated name, if there is one. -/
def cycle? (c : Catalog) (name : String) : Option (List String) :=
  revisitFrom? c.types [] name

/-! ### The order of search -/

/-- The names under which the types declare themselves. -/
def typeNames (c : Catalog) : List String := c.types.entries.entries.map (·.2.name)

theorem name_mem_typeNames {c : Catalog} {name : String} {d : TypeDeclaration}
    (h : c.type? name = some d) : d.name ∈ c.typeNames := by
  have : (name, d) ∈ c.types.entries.entries := NameMap.get?_eq_some_iff.1 h
  exact List.mem_map.2 ⟨_, this, rfl⟩

/-- The types on the chain of parents from a name, up to the first that is not declared or was
met before. A type whose chain is cyclic ends it. -/
def chain (c : Catalog) (seen : List String) (name : String) : List TypeDeclaration :=
  match declared : c.type? name with
  | none => []
  | some d =>
    if met : d.name ∈ seen then []
    else if c.isCyclic d.name then [d]
    else
      match d.parent with
      | none => [d]
      | some parent =>
        have : unmet c.typeNames (d.name :: seen) < unmet c.typeNames seen :=
          unmet_lt (name_mem_typeNames declared) met (by simp) (by simp +contextual)
        d :: chain c (d.name :: seen) parent
termination_by unmet c.typeNames seen

/-- The first type of a chain is declared and was not met before. -/
theorem chain_head {c : Catalog} {seen : List String} {name : String} {d : TypeDeclaration}
    {ds : List TypeDeclaration} (h : c.chain seen name = d :: ds) :
    d.name ∈ c.typeNames ∧ d.name ∉ seen := by
  rw [chain] at h
  split at h
  · simp at h
  · rename_i declared
    have known := name_mem_typeNames declared
    split at h
    · simp at h
    · rename_i new
      split at h
      · simp at h
        exact h.1 ▸ ⟨known, new⟩
      · split at h <;> simp at h <;> exact h.1 ▸ ⟨known, new⟩

/-- The capabilities that are searched through a type. -/
def searchedCapabilities (c : Catalog) (d : TypeDeclaration) : List String :=
  if c.isCyclic d.name then [] else d.capabilities

/-- The search goes through the pending names in order, behind the types already in order. The
capabilities of a chain come before the names that were pending. -/
def searchFrom (c : Catalog) (order : List TypeDeclaration) (pending : List String) :
    List TypeDeclaration :=
  match pending with
  | [] => order
  | name :: rest =>
    match found : c.chain (order.map (·.name)) name with
    | [] => searchFrom c order rest
    | d :: ds =>
      have : unmet c.typeNames (order.map (·.name) ++ d.name :: ds.map (·.name)) <
          unmet c.typeNames (order.map (·.name)) :=
        unmet_lt (chain_head found).1 (chain_head found).2 (by simp) (by simp +contextual)
      searchFrom c (order ++ d :: ds) ((d :: ds).flatMap c.searchedCapabilities ++ rest)
termination_by (unmet c.typeNames (order.map (·.name)), pending.length)

/-- The types on which a member of the named type is searched for, the most specific first. -/
def lookupOrder (c : Catalog) (name : String) : List TypeDeclaration := c.searchFrom [] [name]

/-! ### Catalogs of declarations -/

/-- The types among the given ones whose chain of parents revisits a type. -/
def cyclicNames (types : OrderedMap TypeDeclaration) : List String :=
  types.keys.filter fun name => (revisitFrom? types [] name).isSome

/-- The members of a type that shadow inherited ones, each with the nearest type that has it. -/
def shadowed (c : Catalog) (d : TypeDeclaration) : NameMap String :=
  let inherited := (c.lookupOrder d.name).drop 1
  .ofList <| d.members.filterMap fun m =>
    (inherited.find? fun a => (a.member? m.name).isSome).map fun a => (m.name, a.name)

/-- All members that shadow inherited ones. A type whose chain is cyclic inherits nothing. -/
def overridesOf (c : Catalog) : NameMap (NameMap String) :=
  .ofList <| c.types.values.filterMap fun d =>
    let members := c.shadowed d
    if c.isCyclic d.name || members.size == 0 then none else some (d.name, members)

/-- The catalog of maps of declarations. -/
def ofMaps (types : OrderedMap TypeDeclaration) (enums : OrderedMap Enumeration) : Catalog :=
  let c : Catalog := ⟨types, enums, .ofNames (cyclicNames types), .empty⟩
  { c with overrides := c.overridesOf }

/-- The catalog of declarations. Of two with the same name the later one counts, in the place
of the earlier. -/
def ofDeclarations (types : List TypeDeclaration) (enums : List Enumeration) : Catalog :=
  ofMaps (.ofList (types.map fun d => (d.name, d))) (.ofList (enums.map fun d => (d.name, d)))

/-- The catalog with a type added or replaced. -/
def insertType (c : Catalog) (d : TypeDeclaration) : Catalog :=
  ofMaps (c.types.insert d.name d) c.enums

/-- The catalog with an enumeration added or replaced. -/
def insertEnum (c : Catalog) (d : Enumeration) : Catalog :=
  ofMaps c.types (c.enums.insert d.name d)

end Catalog

end ApiCatalog
