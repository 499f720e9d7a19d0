import Mathlib.Data.List.Nodup
import ApiCatalog.Proofs.ShadowedMembers

/-!
# Four questions about members

A member can be asked for by its name, among all members of a type, among those that the type would
inherit, and by the index of shadowed members. The four answers tell of the same order of search:
the first member of each name in it counts.

Main statement: `Catalog.member_queries_agree`.
-/

namespace ApiCatalog.Catalog

variable {c : Catalog} {type name owner : String} {d : TypeDeclaration} {found : FoundMember}
  {order : List TypeDeclaration} {all : List FoundMember} {seen : List String}

/-! ### The first member of each name -/

/-- The members of types, with their owners. -/
def membersOf (order : List TypeDeclaration) : List FoundMember :=
  order.flatMap fun owner => owner.members.map (⟨owner, ·⟩)

theorem name_mem_membersOf : name ∈ (membersOf order).map (·.member.name) ↔
    ∃ a ∈ order, ∃ m ∈ a.members, m.name = name := by
  simp [membersOf, and_assoc]

/-- The first of the types that has a member tells the same as the first of all their members. -/
theorem firstMember?_eq_find? (name : String) (order : List TypeDeclaration) :
    firstMember? name order = (membersOf order).find? (·.member.name == name) := by
  unfold firstMember? membersOf
  rw [List.find?_flatMap]
  congr 1
  funext owner
  rw [List.find?_map]
  rfl

theorem find?_firstOfEachName (name : String) (seen : List String) (all : List FoundMember) :
    (firstOfEachName seen all).find? (·.member.name == name) =
      if name ∈ seen then none else all.find? (·.member.name == name) := by
  induction all generalizing seen with
  | nil => simp [firstOfEachName]
  | cons found all ih =>
    unfold firstOfEachName
    by_cases hname : found.member.name = name
    · subst hname
      by_cases hseen : found.member.name ∈ seen <;> simp [hseen, ih]
    · have other : (found.member.name == name) = false := by simpa using hname
      by_cases hseen : found.member.name ∈ seen <;> simp [hseen, ih, other, Ne.symm hname]

theorem nodup_firstOfEachName (seen : List String) (all : List FoundMember) :
    ((firstOfEachName seen all).map (·.member.name)).Nodup := by
  induction all generalizing seen with
  | nil => exact .nil
  | cons found all ih =>
    unfold firstOfEachName
    split
    · exact ih seen
    · rw [List.map_cons, List.nodup_cons]
      refine ⟨fun hmem => ?_, ih _⟩
      -- a name that was seen is not found behind it
      obtain ⟨other, hother, same⟩ := List.mem_map.1 hmem
      have none := find?_firstOfEachName found.member.name (found.member.name :: seen) all
      rw [if_pos List.mem_cons_self, List.find?_eq_none] at none
      exact none other hother (by simpa using same)

theorem mem_of_mem_firstOfEachName (h : found ∈ firstOfEachName seen all) :
    found ∈ all := by
  fun_induction firstOfEachName seen all with
  | case1 => exact h
  | case2 seen found all met ih => exact List.mem_cons_of_mem _ (ih h)
  | case3 seen found all new ih =>
    rcases List.mem_cons.1 h with rfl | h
    · exact List.mem_cons_self
    · exact List.mem_cons_of_mem _ (ih h)

/-- Where no name comes twice, a member is the first of its name. -/
theorem find?_eq_some_iff_of_nodup (distinct : (all.map (·.member.name)).Nodup) :
    all.find? (·.member.name == name) = some found ↔ found ∈ all ∧ found.member.name = name := by
  refine ⟨fun h => ⟨List.mem_of_find?_eq_some h, by simpa using List.find?_some h⟩, ?_⟩
  rintro ⟨hmem, rfl⟩
  have present : (all.find? (·.member.name == found.member.name)).isSome = true := by
    rw [List.find?_isSome]
    exact ⟨found, hmem, by simp⟩
  obtain ⟨other, hother⟩ := Option.isSome_iff_exists.1 present
  have same : other.member.name = found.member.name := by simpa using List.find?_some hother
  rw [hother, List.inj_on_of_nodup_map distinct (List.mem_of_find?_eq_some hother) hmem same]

/-! ### The questions -/

theorem memberNamed_eq_ok_iff (hd : c.type? type = some d) :
    c.memberNamed type name = .ok found ↔ firstMember? name (c.lookupOrder type) = some found := by
  rw [memberNamed, hd]
  cases firstMember? name (c.lookupOrder type) <;> simp

theorem allMembers_eq_ok (hd : c.type? type = some d) :
    c.allMembers type = .ok (firstOfEachName [] (membersOf (c.lookupOrder type))) := by
  rw [allMembers, typeNamed, hd]
  rfl

/-- Among all members of a type the first of a name is the one that is searched for. -/
theorem find?_allMembers (name type : String) :
    (firstOfEachName [] (membersOf (c.lookupOrder type))).find? (·.member.name == name) =
      firstMember? name (c.lookupOrder type) := by
  rw [find?_firstOfEachName, firstMember?_eq_find?, if_neg List.not_mem_nil]

/-- Behind the type itself its order of search is that of what it inherits from. -/
theorem drop_lookupOrder (hkeyed : IsKeyed c.types) (hd : c.type? type = some d) :
    (c.lookupOrder type).drop 1 = (c.lookupOrder type).filter (·.name ≠ type) := by
  obtain ⟨rest, hrest⟩ := exists_lookupOrder_eq_cons hd
  have distinct : ((c.lookupOrder type).map (·.name)).Nodup := nodup_searchFrom .nil
  have own : d.name = type := hkeyed _ _ hd
  rw [hrest, List.map_cons, List.nodup_cons] at distinct
  have others : ∀ a ∈ rest, a.name ≠ type := by
    rintro a ha rfl
    exact distinct.1 (List.mem_map.2 ⟨a, ha, own.symm⟩)
  rw [hrest, List.drop_one, List.tail_cons, List.filter_cons_of_neg (by simpa using own),
    List.filter_eq_self.2 (by simpa using others)]

/-- All members of a declared type have different names; they are those of the types in its order of
search, and a member that is asked for by its name is the one among them. The one that the type
inherits is what the same search finds without the type, and the index tells its owner for exactly
the names of which the type has a member itself. -/
theorem member_queries_agree (h : c.IsBuilt) (hd : c.type? type = some d) :
    ∃ all, c.allMembers type = .ok all ∧ (all.map (·.member.name)).Nodup ∧
      (∀ name, name ∈ all.map (·.member.name) ↔
        ∃ a ∈ c.lookupOrder type, ∃ m ∈ a.members, m.name = name) ∧
      ∀ name,
        (∀ found, c.memberNamed type name = .ok found ↔ found ∈ all ∧ found.member.name = name) ∧
        (∀ found, c.memberNamed type name = .ok found ↔
          firstMember? name (c.lookupOrder type) = some found) ∧
        c.inheritedMember? type name =
          firstMember? name ((c.lookupOrder type).filter (·.name ≠ type)) ∧
        ∀ ancestor, c.shadowedOwner? type name = some ancestor ↔
          (∃ m ∈ d.members, m.name = name) ∧
            ∃ found, c.inheritedMember? type name = some found ∧ found.owner.name = ancestor := by
  have distinct := nodup_firstOfEachName [] (membersOf (c.lookupOrder type))
  refine ⟨_, allMembers_eq_ok hd, distinct, fun name => ?_, fun name =>
    ⟨fun found => ?_, fun found => memberNamed_eq_ok_iff hd, ?_, fun ancestor => ?_⟩⟩
  · have named (all : List FoundMember) : name ∈ all.map (·.member.name) ↔
        (all.find? (·.member.name == name)).isSome = true := by
      simp [List.find?_isSome]
    rw [named, find?_allMembers, firstMember?_eq_find?, ← named, name_mem_membersOf]
  · rw [memberNamed_eq_ok_iff hd, ← find?_allMembers, find?_eq_some_iff_of_nodup distinct]
  · rw [inheritedMember?, drop_lookupOrder h.isKeyed hd]
  · have own : d.name = type := h.isKeyed _ _ hd
    subst own
    rw [h.shadowedOwner?_eq_ite hd, Option.ite_none_right_eq_some, Option.map_eq_some_iff]
    simp [TypeDeclaration.member?]

/-- A class that declares a member twice, and has it from its parent and from a capability too. -/
theorem member_queries_agree_twice :
    let x : Member := .property "x" (.primitive .number)
    let leaf : TypeDeclaration :=
      { name := "Leaf", kind := .classLike, parent := some "Root", capabilities := ["Cap"]
        members := [x, .readonlyProperty "x" .any] }
    let c := ofDeclarations [leaf, { TypeDeclaration.ofClass "Root" with members := [x] },
      { TypeDeclaration.ofInterface "Cap" with members := [x, .property "y" .any] }] []
    c.type? "Leaf" = some leaf ∧ c.memberNamed "Leaf" "x" = .ok ⟨leaf, x⟩ ∧
      c.shadowedOwner? "Leaf" "x" = some "Root" ∧ c.shadowedOwner? "Leaf" "y" = none := by
  intro x leaf c
  have hd : c.type? "Leaf" = some leaf := by decide +kernel
  have order : c.lookupOrder "Leaf" =
      [leaf, { TypeDeclaration.ofClass "Root" with members := [x] },
        { TypeDeclaration.ofInterface "Cap" with members := [x, .property "y" .any] }] :=
    searchFrom_of_searchWithin (n := 4) (by decide +kernel)
  obtain ⟨all, -, -, -, agree⟩ := member_queries_agree (.ofDeclarations _ _) hd
  obtain ⟨-, hfirst, hinherited, hindex⟩ := agree "x"
  refine ⟨hd, (hfirst _).2 (by rw [order]; rfl),
    (hindex "Root").2 ⟨⟨x, by simp [leaf], rfl⟩, ?_⟩, ?_⟩
  · exact ⟨_, by rw [hinherited, order]; rfl, rfl⟩
  · obtain ⟨-, -, -, hindex⟩ := agree "y"
    refine Option.eq_none_iff_forall_not_mem.2 fun ancestor h => ?_
    obtain ⟨⟨m, hm, hname⟩, -⟩ := (hindex ancestor).1 h
    revert m
    decide

end ApiCatalog.Catalog
