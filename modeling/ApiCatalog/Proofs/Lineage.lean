import ApiCatalog.Catalog.Inheritance
import ApiCatalog.Proofs.OrderedMaps

/-!
# Lineages

The lineage of a name is the chain of types from it along the parents, up to a type without a
parent or a name that is not declared. A name has one lineage at most, so no type is in its own
lineage twice, and a chain of parents that revisits a type is exactly one without a lineage.

Main statements: `Catalog.revisitFrom?_eq_none_iff`, a search for a revisited type fails exactly on
names with a lineage; `Catalog.isCyclic_ofMaps_iff`, the cyclic types of a catalog are those
without one.
-/

namespace ApiCatalog

/-- Whether every type stands under its own name. -/
def IsKeyed (types : OrderedMap TypeDeclaration) : Prop :=
  types.IsKeyed TypeDeclaration.name

/-- The types from a name along the parents, the last one without a parent or with a parent
that is not declared. -/
inductive Lineage (types : OrderedMap TypeDeclaration) : String → List TypeDeclaration → Prop
  | undeclared {name : String} (h : types.get? name = none) : Lineage types name []
  | root {name : String} {d : TypeDeclaration} (h : types.get? name = some d)
      (hp : d.parent = none) : Lineage types name [d]
  | step {name parent : String} {d : TypeDeclaration} {ds : List TypeDeclaration}
      (h : types.get? name = some d) (hp : d.parent = some parent)
      (rest : Lineage types parent ds) : Lineage types name (d :: ds)

variable {types : OrderedMap TypeDeclaration} {name : String} {d : TypeDeclaration}
  {ds es : List TypeDeclaration}

namespace Lineage

/-- A name has one lineage at most. -/
theorem unique (hds : Lineage types name ds) (hes : Lineage types name es) : ds = es := by
  induction hds generalizing es with
  | undeclared h =>
    cases hes with
    | undeclared => rfl
    | root h' => rw [h] at h'; cases h'
    | step h' => rw [h] at h'; cases h'
  | root h hp =>
    cases hes with
    | undeclared h' => rw [h] at h'; cases h'
    | root h' => rw [h] at h'; cases h'; rfl
    | step h' hp' =>
      rw [h] at h'
      cases h'
      rw [hp] at hp'
      cases hp'
  | step h hp _ ih =>
    cases hes with
    | undeclared h' => rw [h] at h'; cases h'
    | root h' hp' =>
      rw [h] at h'
      cases h'
      rw [hp] at hp'
      cases hp'
    | step h' hp' rest' =>
      rw [h] at h'
      cases h'
      rw [hp] at hp'
      cases hp'
      rw [ih rest']

/-- The lineage of a declared name begins with its type. -/
theorem exists_cons (h : Lineage types name ds) (hd : types.get? name = some d) :
    ∃ rest, ds = d :: rest := by
  cases h with
  | undeclared h' => rw [hd] at h'; cases h'
  | root h' => rw [hd] at h'; cases h'; exact ⟨[], rfl⟩
  | step h' => rw [hd] at h'; cases h'; exact ⟨_, rfl⟩

/-- A type in a lineage is declared, and what follows it is its own lineage. -/
theorem of_mem (hkeyed : IsKeyed types) (h : Lineage types name ds) (hd : d ∈ ds) :
    ∃ rest, Lineage types d.name (d :: rest) ∧ (d :: rest).length ≤ ds.length := by
  induction h with
  | undeclared => cases hd
  | root h hp =>
    rw [List.mem_singleton] at hd
    subst hd
    have same := hkeyed _ _ h
    exact ⟨[], same ▸ .root h hp, Nat.le_refl _⟩
  | step h hp rest ih =>
    rcases List.mem_cons.1 hd with rfl | hd
    · have same := hkeyed _ _ h
      exact ⟨_, .step (same ▸ h) hp rest, Nat.le_refl _⟩
    · obtain ⟨rest, hrest, le⟩ := ih hd
      exact ⟨rest, hrest, Nat.le_succ_of_le le⟩

/-- No type comes twice in a lineage: it would have a shorter lineage than its own. -/
theorem nodup (hkeyed : IsKeyed types) (h : Lineage types name ds) :
    (ds.map (·.name)).Nodup := by
  induction h with
  | undeclared => exact .nil
  | root => simp
  | @step name parent d ds h hp rest ih =>
    refine List.nodup_cons.2 ⟨fun hmem => ?_, ih⟩
    obtain ⟨e, he, same⟩ := List.mem_map.1 hmem
    obtain ⟨es, hes, le⟩ := rest.of_mem hkeyed he
    rw [same.trans (hkeyed _ _ h)] at hes
    -- the name has a lineage inside the rest of its lineage
    have := congrArg List.length (unique hes (.step h hp rest))
    simp only [List.length_cons] at this le
    omega

end Lineage

/-! ### Cycles -/

theorem NameMap.contains_ofList {α : Type} {entries : List (String × α)} {name : String} :
    (ofList entries).contains name = true ↔ name ∈ entries.map (·.1) := by
  have all (m : NameMap α) : (entries.foldl (fun m e => m.insert e.1 e.2) m).contains name = true ↔
      m.contains name = true ∨ name ∈ entries.map (·.1) := by
    induction entries generalizing m with
    | nil => simp
    | cons e es ih =>
      rw [List.foldl_cons, ih, contains, contains, get?_insert, List.map_cons, List.mem_cons]
      by_cases same : name = e.1 <;> simp [same]
  rw [ofList, all]
  simp [contains]

theorem NameSet.contains_ofNames {names : List String} :
    (NameSet.ofNames names).contains name = true ↔ name ∈ names := by
  rw [ofNames, NameMap.contains_ofList, List.map_map]
  simp [Function.comp_def]

namespace Catalog

theorem revisitFrom?_of_lineage (hkeyed : IsKeyed types) (h : Lineage types name ds)
    {seen : List String}
    (hseen : ∀ n ∈ seen, types.contains n = true ∧ n ∉ ds.map (·.name)) :
    revisitFrom? types seen name = none := by
  induction h generalizing seen with
  | @undeclared name h =>
    have new : name ∉ seen := fun hmem => by
      have := (hseen name hmem).1
      rw [OrderedMap.contains_eq_isSome, h] at this
      cases this
    rw [revisitFrom?, dif_neg new]
    split
    · rfl
    · rename_i h'
      rw [h] at h'
      cases h'
  | @root name d h hp =>
    have new : name ∉ seen := fun hmem => (hseen name hmem).2 (by simp [hkeyed _ _ h])
    rw [revisitFrom?, dif_neg new]
    split
    · rfl
    · rename_i h'
      rw [h] at h'
      cases h'
      simp [hp]
  | @step name parent d ds h hp rest ih =>
    have new : name ∉ seen := fun hmem => (hseen name hmem).2 (by simp [hkeyed _ _ h])
    have fresh : name ∉ ds.map (·.name) := by
      have := (Lineage.step h hp rest).nodup hkeyed
      rw [List.map_cons, List.nodup_cons, hkeyed _ _ h] at this
      exact this.1
    -- the name is seen from here on, and its parents do not lead back to it
    have later : revisitFrom? types (name :: seen) parent = none := ih fun n hn => by
      rcases List.mem_cons.1 hn with rfl | hn
      · exact ⟨OrderedMap.contains_of_get? h, fresh⟩
      · obtain ⟨known, absent⟩ := hseen n hn
        exact ⟨known, fun hmem => absent (by simp [hmem])⟩
    rw [revisitFrom?, dif_neg new]
    split
    · rfl
    · rename_i h'
      rw [h] at h'
      cases h'
      split
      · rfl
      · rename_i hp'
        rw [hp] at hp'
        cases hp'
        rw [later]
        rfl

theorem exists_lineage_of_revisitFrom? {seen : List String}
    (h : revisitFrom? types seen name = none) : ∃ ds, Lineage types name ds := by
  fun_induction revisitFrom? types seen name with
  | case1 => cases h
  | case2 seen name new absent => exact ⟨[], .undeclared absent⟩
  | case3 seen name new d declared hp => exact ⟨[d], .root declared hp⟩
  | case4 seen name new d declared parent hp _ ih =>
    obtain ⟨ds, hds⟩ := ih (by simpa using h)
    exact ⟨d :: ds, .step declared hp hds⟩

/-- Following the parents from a name revisits no type exactly if the name has a lineage. -/
theorem revisitFrom?_eq_none_iff (hkeyed : IsKeyed types) :
    revisitFrom? types [] name = none ↔ ∃ ds, Lineage types name ds :=
  ⟨exists_lineage_of_revisitFrom?, fun ⟨_, h⟩ => revisitFrom?_of_lineage hkeyed h (by simp)⟩

/-- The cyclic types of a catalog are its types without a lineage. -/
theorem isCyclic_ofMaps_iff {enums : OrderedMap Enumeration} (hkeyed : IsKeyed types)
    (hconsistent : types.IsConsistent) :
    (ofMaps types enums).isCyclic name = true ↔
      types.contains name = true ∧ ¬∃ ds, Lineage types name ds := by
  show (NameSet.ofNames (cyclicNames types)).contains name = true ↔ _
  rw [NameSet.contains_ofNames, cyclicNames, List.mem_filter, OrderedMap.keys,
    hconsistent.mem_iff, ← revisitFrom?_eq_none_iff hkeyed, Option.isSome_iff_ne_none]

end Catalog

end ApiCatalog
