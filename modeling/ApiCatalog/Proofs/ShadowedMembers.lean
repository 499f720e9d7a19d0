import Mathlib.Data.List.Induction
import ApiCatalog.Proofs.SearchOrder

/-!
# The index of shadowed members

A catalog keeps, for each member that shadows an inherited one, the type that it is inherited from.
The index is made once, from the order of search of every type; it agrees with what a search for the
inherited member finds, since a type whose chain of parents is cyclic inherits nothing.

Main statement: `Catalog.IsBuilt.shadowedOwner?_eq`.
-/

namespace ApiCatalog

/-! ### Maps of lists -/

namespace NameMap

variable {α : Type} {entries : List (String × α)} {name : String} {value : α}

theorem ofList_concat (entries : List (String × α)) (e : String × α) :
    ofList (entries ++ [e]) = (ofList entries).insert e.1 e.2 := by
  rw [ofList, List.foldl_concat]
  rfl

/-- A name has the value that it is listed with, if it is listed with one value only. -/
theorem get?_ofList (h : ∀ e ∈ entries, ∀ e' ∈ entries, e.1 = e'.1 → e.2 = e'.2) :
    (ofList entries).get? name = some value ↔ (name, value) ∈ entries := by
  induction entries using List.reverseRecOn with
  | nil => simp [ofList]
  | append_singleton entries e ih =>
    have earlier := ih fun a ha b hb => h a (by simp [ha]) b (by simp [hb])
    rw [ofList_concat, get?_insert, List.mem_append, List.mem_singleton]
    by_cases same : name = e.1
    · subst same
      rw [if_pos rfl, Option.some.injEq]
      constructor
      · rintro rfl
        exact .inr rfl
      · rintro (hmem | last)
        · exact h e (by simp) (e.1, value) (by simp [hmem]) rfl
        · exact (congrArg Prod.snd last).symm
    · rw [if_neg same, earlier]
      refine ⟨.inl, ?_⟩
      rintro (hmem | rfl)
      · exact hmem
      · exact absurd rfl same

/-- A name that is not listed has no value. -/
theorem get?_ofList_eq_none (h : ∀ e ∈ entries, e.1 ≠ name) : (ofList entries).get? name = none := by
  induction entries using List.reverseRecOn with
  | nil => rfl
  | append_singleton entries e ih =>
    rw [List.forall_mem_append, List.forall_mem_singleton] at h
    rw [ofList_concat, get?_insert, if_neg h.2.symm]
    exact ih h.1

end NameMap

namespace Catalog

variable {c : Catalog} {d : TypeDeclaration} {m : Member} {found : FoundMember}
  {order : List TypeDeclaration} {name owner : String}

/-! ### The first type that has a member -/

theorem map_owner_firstMember? (name : String) (order : List TypeDeclaration) :
    (firstMember? name order).map (·.owner) =
      order.find? fun a => (a.member? name).isSome := by
  induction order with
  | nil => rfl
  | cons a order ih =>
    rw [firstMember?, List.findSome?_cons, List.find?_cons, ← firstMember?]
    cases a.member? name with
    | none => exact ih
    | some m => rfl

/-- What is found is a member of a type in the list. -/
theorem of_firstMember? (h : firstMember? name order = some found) :
    found.owner ∈ order ∧ found.owner.member? name = some found.member := by
  rw [firstMember?] at h
  obtain ⟨a, ha, hfound⟩ := List.exists_of_findSome?_eq_some h
  obtain ⟨m, hm, rfl⟩ := Option.map_eq_some_iff.1 hfound
  exact ⟨ha, hm⟩

theorem of_inheritedMember? (hkeyed : IsKeyed c.types)
    (h : c.inheritedMember? owner name = some found) :
    c.type? found.owner.name = some found.owner ∧
      found.owner.member? name = some found.member := by
  obtain ⟨hmem, hmember⟩ := of_firstMember? h
  exact ⟨(isSearched_lookupOrder hkeyed owner).declared _ (List.mem_of_mem_drop hmem), hmember⟩

/-! ### The index -/

/-- The index has no part in a search. -/
theorem lookupOrder_withOverrides (c : Catalog) (overrides : NameMap (NameMap String))
    (name : String) : { c with overrides }.lookupOrder name = c.lookupOrder name := by
  with_unfolding_all rfl

/-- The members of a type that shadow inherited ones, each with the owner of the nearest. -/
theorem get?_shadowed (c : Catalog) (d : TypeDeclaration) (name : String) :
    (c.shadowed d).get? name =
      if (d.member? name).isSome then (c.inheritedMember? d.name name).map (·.owner.name)
      else none := by
  have nearest (name : String) : (c.inheritedMember? d.name name).map (·.owner.name) =
      (((c.lookupOrder d.name).drop 1).find? fun a => (a.member? name).isSome).map (·.name) := by
    rw [← map_owner_firstMember?, Option.map_map]
    rfl
  have declared : (d.member? name).isSome = true ↔ ∃ m ∈ d.members, m.name = name := by
    simp [TypeDeclaration.member?]
  rw [nearest, shadowed]
  refine Option.ext fun ancestor => ?_
  rw [NameMap.get?_ofList, List.mem_filterMap, Option.ite_none_right_eq_some, declared]
  · constructor
    · rintro ⟨m, hm, h⟩
      obtain ⟨a, ha, same⟩ := Option.map_eq_some_iff.1 h
      obtain ⟨rfl, rfl⟩ := Prod.mk.inj same
      exact ⟨⟨m, hm, rfl⟩, by rw [ha]; rfl⟩
    · rintro ⟨⟨m, hm, rfl⟩, h⟩
      obtain ⟨a, ha, rfl⟩ := Option.map_eq_some_iff.1 h
      exact ⟨m, hm, by rw [ha]; rfl⟩
  · -- members of one name are searched for alike
    simp only [List.mem_filterMap, Option.map_eq_some_iff]
    rintro _ ⟨m₁, -, a₁, ha₁, rfl⟩ _ ⟨m₂, -, a₂, ha₂, rfl⟩ same
    have same : m₁.name = m₂.name := same
    rw [same, ha₂] at ha₁
    cases ha₁
    rfl

theorem type?_of_mem_values (hkeyed : IsKeyed c.types) (h : d ∈ c.types.values) :
    c.type? d.name = some d := by
  obtain ⟨name, h⟩ := OrderedMap.exists_get?_of_mem_values h
  rwa [← hkeyed _ _ h] at h

theorem mem_values_iff (hconsistent : c.types.IsConsistent) (hkeyed : IsKeyed c.types) :
    d ∈ c.types.values ↔ c.type? d.name = some d := by
  refine ⟨type?_of_mem_values hkeyed, fun h => OrderedMap.mem_values.2 ⟨d.name, ?_, h⟩⟩
  exact (hconsistent.mem_iff _).2 (OrderedMap.contains_of_get? h)

theorem IsBuilt.mem_values_iff (h : c.IsBuilt) : d ∈ c.types.values ↔ c.type? d.name = some d := by
  obtain ⟨types, enums, hconsistent, hkeyed, rfl⟩ := h.exists_eq_ofMaps
  exact Catalog.mem_values_iff (c := Catalog.ofMaps types enums) hconsistent hkeyed

theorem get?_overridesOf (hconsistent : c.types.IsConsistent) (hkeyed : IsKeyed c.types)
    (hd : c.type? d.name = some d) (name : String) :
    (c.overridesOf.get? d.name).bind (·.get? name) =
      if c.isCyclic d.name then none else (c.shadowed d).get? name := by
  have listed {members : NameMap String} : c.overridesOf.get? d.name = some members ↔
      (c.isCyclic d.name || (c.shadowed d).size == 0) = false ∧ c.shadowed d = members := by
    rw [overridesOf, NameMap.get?_ofList]
    · simp only [List.mem_filterMap, mem_values_iff hconsistent hkeyed,
        Option.ite_none_left_eq_some, Option.some.injEq, Prod.mk.injEq, Bool.not_eq_true]
      constructor
      · rintro ⟨e, he, hindexed, hname, rfl⟩
        rw [hname, hd] at he
        cases he
        exact ⟨hindexed, rfl⟩
      · rintro ⟨hindexed, rfl⟩
        exact ⟨d, hd, hindexed, rfl, rfl⟩
    · simp only [List.mem_filterMap, mem_values_iff hconsistent hkeyed,
        Option.ite_none_left_eq_some, Option.some.injEq]
      rintro _ ⟨e₁, he₁, -, rfl⟩ _ ⟨e₂, he₂, -, rfl⟩ same
      have same : e₁.name = e₂.name := same
      rw [same, he₂] at he₁
      cases he₁
      rfl
  refine Option.ext fun ancestor => ?_
  simp only [Option.bind_eq_some_iff, listed, Option.ite_none_left_eq_some, Bool.or_eq_false_iff]
  constructor
  · rintro ⟨_, ⟨⟨acyclic, -⟩, rfl⟩, h⟩
    exact ⟨by simp [acyclic], h⟩
  · rintro ⟨acyclic, h⟩
    refine ⟨_, ⟨⟨by simpa using acyclic, ?_⟩, rfl⟩, h⟩
    -- a map that has a value is not empty
    have listed := NameMap.get?_eq_some_iff.1 h
    simpa [NameMap.size] using List.ne_nil_of_mem listed

/-- The index tells, for each name, the type that a member would be inherited from, if the type has
one of that name itself. -/
theorem IsBuilt.shadowedOwner?_eq_ite (h : c.IsBuilt) (hd : c.type? d.name = some d)
    (name : String) : c.shadowedOwner? d.name name =
      if (d.member? name).isSome then (c.inheritedMember? d.name name).map (·.owner.name)
      else none := by
  obtain ⟨types, enums, hconsistent, hkeyed, rfl⟩ := h.exists_eq_ofMaps
  let bare : Catalog := ⟨types, enums, .ofNames (cyclicNames types), .empty⟩
  have search : (Catalog.ofMaps types enums).inheritedMember? d.name name =
      bare.inheritedMember? d.name name := by
    rw [inheritedMember?, inheritedMember?]
    exact congrArg (fun order => firstMember? name (order.drop 1))
      (lookupOrder_withOverrides bare bare.overridesOf d.name)
  have index : (Catalog.ofMaps types enums).shadowedOwner? d.name name =
      if bare.isCyclic d.name then none else (bare.shadowed d).get? name :=
    get?_overridesOf (c := bare) hconsistent hkeyed hd name
  rw [index, search, get?_shadowed]
  split
  · rename_i cyclic
    have alone : bare.lookupOrder d.name = [d] :=
      lookupOrder_of_isCyclic (c := bare) hkeyed hd cyclic
    rw [inheritedMember?, alone]
    exact (ite_self none).symm
  · rfl

/-- The index has nothing on names that are not declared. -/
theorem IsBuilt.shadowedOwner?_of_undeclared (h : c.IsBuilt) (absent : c.type? owner = none)
    (name : String) : c.shadowedOwner? owner name = none := by
  obtain ⟨types, enums, -, hkeyed, rfl⟩ := h.exists_eq_ofMaps
  let bare : Catalog := ⟨types, enums, .ofNames (cyclicNames types), .empty⟩
  have unlisted : bare.overridesOf.get? owner = none := by
    refine NameMap.get?_ofList_eq_none fun e he => ?_
    obtain ⟨d, hd, hlisted⟩ := List.mem_filterMap.1 he
    obtain ⟨-, listed⟩ := Option.ite_none_left_eq_some.1 hlisted
    cases listed
    rintro rfl
    have declared := type?_of_mem_values (c := bare) hkeyed hd
    cases declared.symm.trans absent
  show (bare.overridesOf.get? owner).bind _ = none
  rw [unlisted]
  rfl

/-- The index agrees with a look-up of the type and a search for the inherited member. -/
theorem IsBuilt.shadowedOwner?_eq_bind (h : c.IsBuilt) (owner name : String) :
    c.shadowedOwner? owner name = (c.type? owner).bind fun d =>
      if (d.member? name).isSome then (c.inheritedMember? owner name).map (·.owner.name)
      else none := by
  cases hd : c.type? owner with
  | none => exact h.shadowedOwner?_of_undeclared hd name
  | some d =>
    obtain rfl := h.isKeyed _ _ hd
    exact h.shadowedOwner?_eq_ite hd name

/-- The index tells, for each member of a type, the type that it would be inherited from. -/
theorem IsBuilt.shadowedOwner?_eq (h : c.IsBuilt) (hd : c.type? d.name = some d)
    (hm : m ∈ d.members) :
    c.shadowedOwner? d.name m.name = (c.inheritedMember? d.name m.name).map (·.owner.name) := by
  have declared : (d.member? m.name).isSome = true := by
    rw [TypeDeclaration.member?, List.find?_isSome]
    exact ⟨m, hm, by simp⟩
  rw [h.shadowedOwner?_eq_ite hd, if_pos declared]

end Catalog

end ApiCatalog
