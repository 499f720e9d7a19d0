import ApiCatalog.Proofs.MemberQueries
import ApiCatalog.Proofs.Substitution

/-!
# Properties that methods change

Validation looks at the properties that a method says to change once, from the type that declares
the method. A type that inherits the method has a member of that name too, but it may be another
one: a property that is declared again may become read-only, and a capability that is searched
earlier may have a member of that name with no regard to the method at all.

So at the owner of a method the properties can be changed. Elsewhere the member in their place is
still a property if each one in between shadows the next, and it can be changed as long as none of
those was made read-only.

Main statements: `Catalog.memberNamed_of_mem_mutates`, `Catalog.not_keepsMutable_of_clean`.
-/

namespace ApiCatalog.Catalog

open Relation

variable {c : Catalog} {type property name : String} {d a : TypeDeclaration} {old new : Member}
  {f g found current assignable : FoundMember} {order : List TypeDeclaration}
  {all : List FoundMember} {checkNames : Bool}

/-! ### Where a member of a type comes from -/

/-- A type with members is declared, and each of them is one of a type in its order of search. -/
theorem exists_of_mem_allMembers (hall : c.allMembers type = .ok all) (hfound : found ∈ all) :
    (∃ d, c.type? type = some d) ∧ found.owner ∈ c.lookupOrder type ∧
      found.member ∈ found.owner.members := by
  cases hd : c.type? type with
  | none =>
    rw [allMembers, typeNamed, hd] at hall
    cases hall
  | some d =>
    rw [allMembers_eq_ok hd] at hall
    cases hall
    obtain ⟨a, ha, hmem⟩ := List.mem_flatMap.1 (mem_of_mem_firstOfEachName hfound)
    obtain ⟨m, hm, rfl⟩ := List.mem_map.1 hmem
    exact ⟨⟨d, rfl⟩, ha, hm⟩

/-- The first type with a member is a given one that has it, or comes before that. -/
theorem eq_or_sublist_of_firstMember? (h : firstMember? name order = some f) (ha : a ∈ order)
    (hold : a.member? name = some old) : f = ⟨a, old⟩ ∨ [f.owner, a].Sublist order := by
  induction order with
  | nil => cases ha
  | cons b order ih =>
    rw [firstMember?, List.findSome?_cons, ← firstMember?] at h
    cases hown : b.member? name with
    | none =>
      rw [hown] at h
      rcases List.mem_cons.1 ha with rfl | ha
      · rw [hown] at hold
        cases hold
      · exact (ih h ha).imp_right fun before => before.cons b
    | some m =>
      rw [hown] at h
      cases h
      rcases List.mem_cons.1 ha with rfl | ha
      · rw [hown] at hold
        cases hold
        exact .inl rfl
      · exact .inr ((List.singleton_sublist.2 ha).cons_cons b)

/-! ### Along a chain of members -/

theorem isMethod_eq_of_overrideFault? (h : c.overrideFault? old new = none) :
    new.isMethod = old.isMethod := by
  rw [overrideFault?_eq_none_iff] at h
  unfold Member.isMethod
  cases hold : old.kind <;> cases hnew : new.kind <;> simp only [hold, hnew] at h ⊢

/-- In a sound catalog the members along a chain are all methods, or all properties. -/
theorem IsSound.isMethod_eq (hsound : c.IsSound checkNames) (h : c.IsBuilt)
    (hd : c.type? f.owner.name = some f.owner) (hm : f.owner.member? name = some f.member)
    (hfg : ReflTransGen (c.Shadows name) f g) : f.member.isMethod = g.member.isMethod := by
  induction hfg with
  | refl => rfl
  | tail hchain hnext ih =>
    obtain ⟨hd', hm'⟩ := declared_of_reflTransGen_shadows h.isKeyed hd hm hchain
    rw [ih]
    exact isMethod_eq_of_overrideFault? (hsound.overrideFault?_eq_none h hd' hm' hnext)

/-- Along a chain from a property that is read-only to one that is not, one is made read-only. -/
theorem exists_shadows_readonly (h : ReflTransGen (c.Shadows name) f g)
    (hf : f.member.isReadonly = true) (hg : g.member.isReadonly = false) :
    ∃ k l, ReflTransGen (c.Shadows name) f k ∧ c.Shadows name k l ∧
      ReflTransGen (c.Shadows name) l g ∧ k.member.isReadonly = true ∧
      l.member.isReadonly = false := by
  induction h using ReflTransGen.head_induction_on with
  | refl =>
    rw [hf] at hg
    cases hg
  | @head f k hfk hkg ih =>
    by_cases hk : k.member.isReadonly = true
    · obtain ⟨l, m, hl, rest⟩ := ih hk
      exact ⟨l, m, hl.head hfk, rest⟩
    · exact ⟨f, k, .refl, hfk, hkg, hf, Bool.eq_false_iff.2 hk⟩

/-! ### Properties at the heirs of a method -/

/-- What the member of a type has to do with one of the same name that is searched from there. -/
structure StandsFor (c : Catalog) (type name : String) (f g : FoundMember) : Prop where
  /-- It is that one, or its owner is searched before the owner of that. -/
  nearest : f = g ∨ [f.owner, g.owner].Sublist (c.lookupOrder type)
  /-- It is on a chain to that one if the lineage of the type has the owner of that. -/
  lineage : ∀ ds, Lineage c.types type ds → g.owner ∈ ds → ReflTransGen (c.Shadows name) f g
  /-- So it is if the lineage of the owner of some member on the chain has the owner of that. -/
  lineageOfOwner : ∀ k, ReflTransGen (c.Shadows name) f k →
    ∀ ds, Lineage c.types k.owner.name ds → g.owner ∈ ds → ReflTransGen (c.Shadows name) f g
  /-- Along a chain methods stay methods, and properties stay properties. -/
  isMethod : ReflTransGen (c.Shadows name) f g → f.member.isMethod = g.member.isMethod
  /-- What is read-only without need was made so along the chain. -/
  readonly : ReflTransGen (c.Shadows name) f g → f.member.isReadonly = true →
    g.member.isReadonly = false → ∃ k l, ReflTransGen (c.Shadows name) f k ∧ c.Shadows name k l ∧
      ReflTransGen (c.Shadows name) l g ∧ k.member.isReadonly = true ∧ l.member.isReadonly = false

/-- In a sound catalog every member that is searched from a type has one standing for it there. -/
theorem IsSound.exists_standsFor (hsound : c.IsSound checkNames) (h : c.IsBuilt)
    (hd : c.type? type = some d) (ha : a ∈ c.lookupOrder type) (hold : a.member? name = some old) :
    ∃ current, c.memberNamed type name = .ok current ∧ c.StandsFor type name current ⟨a, old⟩ := by
  obtain ⟨current, hcurrent⟩ := exists_firstMember? ha hold
  obtain ⟨howner, hmember⟩ := of_firstMember? hcurrent
  have hdeclared := (isSearched_lookupOrder h.isKeyed type).declared _ howner
  refine ⟨current, memberNamed_eq_ok hd hcurrent, ?_⟩
  exact {
    nearest := eq_or_sublist_of_firstMember? hcurrent ha hold
    lineage := fun ds hds hmem => h.reflTransGen_shadows_of_search hds hmem hold hcurrent
    lineageOfOwner := fun k hk ds hds hmem => by
      obtain ⟨hdk, hmk⟩ := declared_of_reflTransGen_shadows h.isKeyed hdeclared hmember hk
      exact hk.trans (h.reflTransGen_shadows_of_owner hdk hmk hds hmem hold)
    isMethod := hsound.isMethod_eq h hdeclared hmember
    readonly := exists_shadows_readonly }

/-- In a catalog without problems, take a type, one of the methods that it has and a property that
the method says to change. The owner of the method has a property of that name that can be assigned.
The type has a member of that name too, which stands for that one. -/
theorem memberNamed_of_mem_mutates (h : c.IsBuilt) (hclean : c.problems checkNames = [])
    (hall : c.allMembers type = .ok all) (hfound : found ∈ all)
    (hproperty : property ∈ found.member.mutates) :
    ∃ assignable current, c.memberNamed found.owner.name property = .ok assignable ∧
      assignable.member.isMethod = false ∧ assignable.member.isReadonly = false ∧
      c.memberNamed type property = .ok current ∧
      c.StandsFor type property current assignable := by
  have hsound := h.problems_eq_nil_iff.1 hclean
  obtain ⟨⟨d, hd⟩, howner, hmember⟩ := exists_of_mem_allMembers hall hfound
  have hdeclared := (isSearched_lookupOrder h.isKeyed type).declared _ howner
  obtain ⟨assignable, hassignable, hproperty, hwritable⟩ :=
    (hsound.type _ (h.mem_values_iff.2 hdeclared)).mutation _ hmember _ hproperty
  obtain ⟨hmem, hold⟩ := of_firstMember? ((memberNamed_eq_ok_iff hdeclared).1 hassignable)
  have hsearched := mem_lookupOrder_trans h.isKeyed howner hmem
  obtain ⟨current, hcurrent, hstands⟩ := hsound.exists_standsFor h hd hsearched hold
  exact ⟨assignable, current, hassignable, hproperty, hwritable, hcurrent, hstands⟩

/-! ### Numbers that a method puts back -/

/-- The declaration with a number and a method that puts it back. -/
def withCounter (d : TypeDeclaration) : TypeDeclaration :=
  d.addMembers [.property "value" (.primitive .number),
    ⟨"reset", .method [] .void ["value"], none, []⟩]

/-- A class with such a method, and one that inherits it and declares the number again. -/
def redeclared (number : Member) : List TypeDeclaration :=
  [withCounter (.ofClass "Base"),
    ((TypeDeclaration.ofClass "Derived").withParent "Base").addMembers [number]]

/-- A class that has such a method from its second capability, and a member from the first. -/
def displaced (member : Member) : List TypeDeclaration :=
  [(TypeDeclaration.ofInterface "First").addMembers [member], withCounter (.ofInterface "Second"),
    ((TypeDeclaration.ofClass "Derived").withCapability "First").withCapability "Second"]

/-- A number that is made read-only stands for the one that the method puts back. -/
theorem memberNamed_of_mem_mutates_redeclared :
    let c := ofDeclarations (redeclared (.readonlyProperty "value" (.primitive .number))) []
    c.problems false = [] ∧ ∃ assignable current,
      c.memberNamed "Base" "value" = .ok assignable ∧
        c.memberNamed "Derived" "value" = .ok current ∧
        c.StandsFor "Derived" "value" current assignable := by
  intro c
  have clean : c.problems false = [] :=
    problems_ofDeclarations_eq_nil (by decide) 2 (by decide +kernel)
  have hd : c.type? "Derived" = some (((TypeDeclaration.ofClass "Derived").withParent
      "Base").addMembers [.readonlyProperty "value" (.primitive .number)]) := by decide +kernel
  have order : c.lookupOrder "Derived" =
      (redeclared (.readonlyProperty "value" (.primitive .number))).reverse :=
    searchFrom_of_searchWithin (n := 2) (by decide +kernel)
  have inherited : (⟨withCounter (.ofClass "Base"), ⟨"reset", .method [] .void ["value"], none,
      []⟩⟩ : FoundMember) ∈ firstOfEachName [] (membersOf (c.lookupOrder "Derived")) := by
    rw [order]
    decide +kernel
  obtain ⟨assignable, current, hassignable, -, -, hcurrent, hstands⟩ :=
    memberNamed_of_mem_mutates (.ofDeclarations _ _) clean (allMembers_eq_ok hd) inherited
      List.mem_cons_self
  exact ⟨clean, assignable, current, hassignable, hcurrent, hstands⟩

/-! ### Where a property cannot be changed -/

/-- Whether every type can change the properties that its methods say to change. -/
def KeepsMutable (c : Catalog) : Prop :=
  ∀ type all, c.allMembers type = .ok all → ∀ found ∈ all, ∀ property ∈ found.member.mutates,
    c.IsMutable type property

/-- A search of so many walks can show a member that cannot be changed as a method says. -/
theorem not_keepsMutable_of_searchWithin (walks : Nat) (type property : String)
    (declared : (c.type? type).isSome = true)
    (h : ∃ order ∈ c.searchWithin walks [] [type],
      (∃ found ∈ firstOfEachName [] (membersOf order), property ∈ found.member.mutates) ∧
        ∃ current ∈ firstMember? property order,
          current.member.isMethod = true ∨ current.member.isReadonly = true) :
    ¬c.KeepsMutable := by
  obtain ⟨d, hd⟩ := Option.isSome_iff_exists.1 declared
  obtain ⟨order, horder, ⟨found, hfound, hproperty⟩, current, hcurrent, hfixed⟩ := h
  obtain rfl : c.lookupOrder type = order := searchFrom_of_searchWithin horder
  intro hall
  obtain ⟨other, hother, hmethod, hreadonly⟩ :=
    hall type _ (allMembers_eq_ok hd) found hfound property hproperty
  rw [memberNamed_eq_ok hd hcurrent] at hother
  cases hother
  rcases hfixed with h | h
  · rw [hmethod] at h
    cases h
  · rw [hreadonly] at h
    cases h

/-- A catalog without problems may have types that cannot change what their methods say to change:
the property was made read-only, or a capability that is searched earlier has a property that is
read-only, or a method, of that name. -/
theorem not_keepsMutable_of_clean :
    (let c := ofDeclarations (redeclared (.readonlyProperty "value" (.primitive .number))) []
     c.problems false = [] ∧ ¬c.KeepsMutable) ∧
      (let c := ofDeclarations (displaced (.readonlyProperty "value" (.primitive .number))) []
       c.problems false = [] ∧ ¬c.KeepsMutable) ∧
      (let c := ofDeclarations (displaced (.method "value" [] .void)) []
       c.problems false = [] ∧ ¬c.KeepsMutable) := by
  refine ⟨⟨?_, ?_⟩, ⟨?_, ?_⟩, ⟨?_, ?_⟩⟩
  · exact problems_ofDeclarations_eq_nil (by decide) 2 (by decide +kernel)
  · apply not_keepsMutable_of_searchWithin 2 "Derived" "value" <;> decide +kernel
  · exact problems_ofDeclarations_eq_nil (by decide) 3 (by decide +kernel)
  · apply not_keepsMutable_of_searchWithin 3 "Derived" "value" <;> decide +kernel
  · exact problems_ofDeclarations_eq_nil (by decide) 3 (by decide +kernel)
  · apply not_keepsMutable_of_searchWithin 3 "Derived" "value" <;> decide +kernel

end ApiCatalog.Catalog
