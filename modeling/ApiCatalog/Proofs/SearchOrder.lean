import Mathlib.Data.List.Basic
import Mathlib.Order.Bounds.Defs
import ApiCatalog.Catalog.Members
import ApiCatalog.Proofs.Lineage
import ApiCatalog.Proofs.Collecting

/-!
# The order of search

A search walks up from a name and then from the capabilities of every type that it passed. One
list of types passed serves all of these walks: a walk stops where another one has been. That
loses nothing, because what lies behind such a type is either in the list or pending.

The invariant `Catalog.IsSearched` says so of every state of a search; one walk keeps it, and so
the whole search does. What is found is then the least set of types that is closed under parents
and capabilities.

Main statement: `Catalog.lookupOrder_spec`.
-/

namespace ApiCatalog.Catalog

variable {c : Catalog} {name : String} {d e : TypeDeclaration} {order : List TypeDeclaration}
  {seen pending rest : List String}

/-- Whether a set of names has, with each type whose chain of parents ends, also its parent and
its capabilities, as far as they are declared. -/
def IsClosed (c : Catalog) (S : Set String) : Prop :=
  ∀ n ∈ S, c.isCyclic n = false → ∀ d, c.type? n = some d →
    ∀ m, d.parent = some m ∨ m ∈ d.capabilities → (c.type? m).isSome → m ∈ S

/-! ### One walk -/

/-- A walk passes no type twice and none that has been seen. -/
theorem chain_nodup (c : Catalog) (seen : List String) (name : String) :
    ((c.chain seen name).map (·.name)).Nodup ∧ ∀ d ∈ c.chain seen name, d.name ∉ seen := by
  fun_induction chain c seen name with
  | case1 | case2 => simp
  | case3 seen name d _ new | case4 seen name d _ new => simpa using new
  | case5 seen name d _ new _ parent _ _ ih =>
    obtain ⟨distinct, apart⟩ := ih
    refine ⟨List.nodup_cons.2 ⟨fun hmem => ?_, distinct⟩, fun e he => ?_⟩
    · obtain ⟨e, he, same⟩ := List.mem_map.1 hmem
      exact apart e he (by simp [same])
    · rcases List.mem_cons.1 he with rfl | he
      · exact new
      · exact fun hmem => apart e he (by simp [hmem])

theorem mem_typeNames_of_mem_chain (h : d ∈ c.chain seen name) : d.name ∈ c.typeNames := by
  fun_induction chain c seen name with
  | case1 | case2 => cases h
  | case3 _ _ _ declared | case4 _ _ _ declared =>
    rw [List.mem_singleton.1 h]
    exact name_mem_typeNames declared
  | case5 seen name e declared _ _ parent _ _ ih =>
    rcases List.mem_cons.1 h with rfl | h
    · exact name_mem_typeNames declared
    · exact ih h

theorem chain_of_undeclared (h : c.type? name = none) : c.chain seen name = [] := by
  rw [chain]
  split
  · rfl
  · rename_i declared
    rw [h] at declared
    cases declared

theorem chain_of_mem (h : c.type? name = some d) (met : d.name ∈ seen) : c.chain seen name = [] := by
  rw [chain]
  split
  · rfl
  · rename_i declared
    rw [h] at declared
    cases declared
    exact dif_pos met

/-- A walk from a type that has not been seen begins with it and goes on at its parent. -/
theorem chain_of_type? (h : c.type? name = some d) (new : d.name ∉ seen) :
    c.chain seen name =
      d :: if c.isCyclic d.name then []
        else (d.parent.map fun parent => c.chain (d.name :: seen) parent).getD [] := by
  rw [chain]
  split
  · rename_i absent
    rw [h] at absent
    cases absent
  · rename_i declared
    rw [h] at declared
    cases declared
    rw [dif_neg new]
    split
    · rfl
    · cases d.parent <;> rfl

section Keyed

variable (hkeyed : IsKeyed c.types)
include hkeyed

theorem type?_of_mem_chain (h : d ∈ c.chain seen name) : c.type? d.name = some d := by
  fun_induction chain c seen name with
  | case1 | case2 => cases h
  | case3 _ _ e declared | case4 _ _ e declared =>
    rw [List.mem_singleton.1 h, hkeyed _ _ declared]
    exact declared
  | case5 seen name e declared _ _ parent _ _ ih =>
    rcases List.mem_cons.1 h with rfl | h
    · rw [hkeyed _ _ declared]
      exact declared
    · exact ih h

/-- The declared parent of a type that is passed is passed next, or has been seen before. -/
theorem parent_of_mem_chain (h : d ∈ c.chain seen name) (hd : c.isCyclic d.name = false)
    {parent : String} (hp : d.parent = some parent) (he : c.type? parent = some e) :
    parent ∈ seen ∨ parent ∈ (c.chain seen name).map (·.name) := by
  fun_induction chain c seen name with
  | case1 | case2 => cases h
  | case3 _ _ a _ _ cyclic =>
    rw [List.mem_singleton.1 h, cyclic] at hd
    cases hd
  | case4 _ _ a _ _ _ root =>
    rw [List.mem_singleton.1 h, root] at hp
    cases hp
  | case5 seen name a declared _ _ above hup _ ih =>
    rcases List.mem_cons.1 h with rfl | h
    · rw [hup] at hp
      cases hp
      have same := hkeyed _ _ he
      -- a type may be its own parent
      by_cases met : e.name ∈ d.name :: seen
      · rcases List.mem_cons.1 met with hself | met
        · exact .inr (by simp [← same, hself])
        · exact .inl (same ▸ met)
      · exact .inr (by simp [chain_of_type? he met, same])
    · rcases ih h with hmem | hmem
      · rcases List.mem_cons.1 hmem with rfl | hmem
        · exact .inr (by simp)
        · exact .inl hmem
      · exact .inr (List.mem_cons_of_mem _ hmem)

/-- A walk from inside a closed set does not leave it. -/
theorem mem_of_mem_chain {S : Set String} (hS : c.IsClosed S)
    (hname : (c.type? name).isSome → name ∈ S) (h : d ∈ c.chain seen name) : d.name ∈ S := by
  fun_induction chain c seen name with
  | case1 | case2 => cases h
  | case3 _ _ e declared | case4 _ _ e declared =>
    rw [List.mem_singleton.1 h, hkeyed _ _ declared]
    exact hname (by rw [declared]; rfl)
  | case5 seen name e declared _ acyclic parent hp _ ih =>
    have hmem : name ∈ S := hname (by rw [declared]; rfl)
    have same := hkeyed _ _ declared
    rcases List.mem_cons.1 h with rfl | h
    · rw [same]
      exact hmem
    · refine ih (fun hparent => ?_) h
      exact hS name hmem (by simpa [same] using acyclic) e declared parent (.inl hp) hparent

/-- From a name with a lineage, the walk passes the whole lineage, up to the first type that
has been seen. -/
theorem chain_of_lineage {ds : List TypeDeclaration}
    (hcyclic : ∀ n ds, Lineage c.types n ds → c.isCyclic n = false)
    (h : Lineage c.types name ds) (hseen : ∀ d ∈ ds, d.name ∉ seen) : c.chain seen name = ds := by
  induction h generalizing seen with
  | undeclared h => exact chain_of_undeclared h
  | @root name d h hp =>
    have acyclic := hcyclic name _ (.root h hp)
    rw [chain_of_type? h (hseen d (by simp)), hkeyed _ _ h, acyclic, hp]
    rfl
  | @step name parent d ds h hp lineage ih =>
    have whole := Lineage.step h hp lineage
    have apart := (List.nodup_cons.1 (whole.nodup hkeyed)).1
    have later : c.chain (d.name :: seen) parent = ds := ih fun e he hmem => by
      rcases List.mem_cons.1 hmem with same | hmem
      · exact apart (List.mem_map.2 ⟨e, he, same⟩)
      · exact hseen e (by simp [he]) hmem
    have acyclic := hcyclic name _ whole
    rw [← hkeyed _ _ h] at acyclic
    rw [chain_of_type? h (hseen d (by simp)), acyclic, hp]
    exact congrArg (d :: ·) later

end Keyed

/-! ### The whole search -/

/-- Every name that is pending costs one walk, which may pass nothing. -/
theorem searchFrom_cons (c : Catalog) (order : List TypeDeclaration) (name : String)
    (rest : List String) :
    c.searchFrom order (name :: rest) =
      c.searchFrom (order ++ c.chain (order.map (·.name)) name)
        ((c.chain (order.map (·.name)) name).flatMap c.searchedCapabilities ++ rest) := by
  rw [searchFrom]
  split
  · rename_i h
    rw [h, List.append_nil, List.flatMap_nil, List.nil_append]
  · rename_i d ds h
    show c.searchFrom _ _ = _
    rw [h]

/-- A property of states that every walk passes on holds at the end of a search. -/
theorem searchFrom_induction {P : List TypeDeclaration → List String → Prop}
    (walk : ∀ order name rest, P order (name :: rest) →
      P (order ++ c.chain (order.map (·.name)) name)
        ((c.chain (order.map (·.name)) name).flatMap c.searchedCapabilities ++ rest))
    (h : P order pending) : P (c.searchFrom order pending) [] := by
  fun_induction searchFrom c order pending with
  | case1 => exact h
  | case2 order name rest empty ih =>
    have next := walk order name rest h
    rw [empty, List.append_nil, List.flatMap_nil, List.nil_append] at next
    exact ih next
  | case3 order name rest d ds found _ ih =>
    have next := walk order name rest h
    rw [found] at next
    exact ih next

/-- A search that ends within so many walks. -/
def searchWithin (c : Catalog) : Nat → List TypeDeclaration → List String →
    Option (List TypeDeclaration)
  | _, order, [] => some order
  | 0, _, _ :: _ => none
  | walks + 1, order, name :: rest =>
    let passed := c.chain (order.map (·.name)) name
    c.searchWithin walks (order ++ passed) (passed.flatMap c.searchedCapabilities ++ rest)

/-- A search of few walks can be computed. -/
theorem searchFrom_of_searchWithin {n : Nat} {found : List TypeDeclaration}
    (h : c.searchWithin n order pending = some found) : c.searchFrom order pending = found := by
  fun_induction searchWithin c n order pending with
  | case1 n order =>
    cases h
    rw [searchFrom]
  | case2 => cases h
  | case3 order name rest walks passed ih =>
    rw [searchFrom_cons]
    exact ih h

theorem isPrefix_searchFrom (c : Catalog) (order : List TypeDeclaration) (pending : List String) :
    order <+: c.searchFrom order pending :=
  searchFrom_induction (P := fun found _ => order <+: found)
    (fun _ _ _ h => h.trans (List.prefix_append _ _)) (List.prefix_refl order)

theorem nodup_searchFrom (h : (order.map (·.name)).Nodup) :
    ((c.searchFrom order pending).map (·.name)).Nodup := by
  refine searchFrom_induction (P := fun order _ => (order.map (·.name)).Nodup) ?_ h
  intro order name rest distinct
  obtain ⟨passed, apart⟩ := chain_nodup c (order.map (·.name)) name
  rw [List.map_append, List.nodup_append]
  refine ⟨distinct, passed, ?_⟩
  rintro n hn _ hm rfl
  obtain ⟨d, hd, rfl⟩ := List.mem_map.1 hm
  exact apart d hd hn

theorem mem_typeNames_of_mem_searchFrom (h : ∀ d ∈ order, d.name ∈ c.typeNames) :
    ∀ d ∈ c.searchFrom order pending, d.name ∈ c.typeNames := by
  refine searchFrom_induction (P := fun order _ => ∀ d ∈ order, d.name ∈ c.typeNames) ?_ h
  intro order name rest known d hd
  rcases List.mem_append.1 hd with hd | hd
  · exact known d hd
  · exact mem_typeNames_of_mem_chain hd

/-- A search ends with at most as many types as there are. -/
theorem length_lookupOrder_le (c : Catalog) (name : String) :
    (c.lookupOrder name).length ≤ c.types.entries.size := by
  have distinct : ((c.lookupOrder name).map (·.name)).Nodup := nodup_searchFrom .nil
  have known : (c.lookupOrder name).map (·.name) ⊆ c.typeNames := by
    intro n hn
    obtain ⟨d, hd, rfl⟩ := List.mem_map.1 hn
    exact mem_typeNames_of_mem_searchFrom (by simp) d hd
  have le := distinct.length_le_of_subset known
  rwa [List.length_map, typeNames, List.length_map] at le

/-- What every state of a search satisfies: the types in order are declared, the parent of each
is in order too, and its capabilities are in order or pending. Types whose chain is cyclic are
exempt, and so are names that are not declared. -/
structure IsSearched (c : Catalog) (order : List TypeDeclaration) (pending : List String) :
    Prop where
  declared : ∀ d ∈ order, c.type? d.name = some d
  parent : ∀ d ∈ order, c.isCyclic d.name = false → ∀ n, d.parent = some n →
    (c.type? n).isSome → n ∈ order.map (·.name)
  capability : ∀ d ∈ order, c.isCyclic d.name = false → ∀ n ∈ d.capabilities,
    (c.type? n).isSome → n ∈ order.map (·.name) ∨ n ∈ pending

theorem mem_searchedCapabilities (hd : c.isCyclic d.name = false) :
    name ∈ c.searchedCapabilities d ↔ name ∈ d.capabilities := by
  simp [searchedCapabilities, hd]

/-- One walk keeps the invariant. -/
theorem IsSearched.walk (hkeyed : IsKeyed c.types) (h : c.IsSearched order (name :: rest)) :
    c.IsSearched (order ++ c.chain (order.map (·.name)) name)
      ((c.chain (order.map (·.name)) name).flatMap c.searchedCapabilities ++ rest) where
  declared d hd := by
    rcases List.mem_append.1 hd with hd | hd
    · exact h.declared d hd
    · exact type?_of_mem_chain hkeyed hd
  parent d hd acyclic n hn declared := by
    rw [List.map_append, List.mem_append]
    rcases List.mem_append.1 hd with hd | hd
    · exact .inl (h.parent d hd acyclic n hn declared)
    · obtain ⟨e, he⟩ := Option.isSome_iff_exists.1 declared
      exact parent_of_mem_chain hkeyed hd acyclic hn he
  capability d hd acyclic n hn declared := by
    rw [List.map_append, List.mem_append, List.mem_append]
    rcases List.mem_append.1 hd with hd | hd
    · rcases h.capability d hd acyclic n hn declared with hmem | hmem
      · exact .inl (.inl hmem)
      · rcases List.mem_cons.1 hmem with rfl | hmem
        · -- the walk began here: it passed the type unless that was seen
          obtain ⟨e, he⟩ := Option.isSome_iff_exists.1 declared
          have same := hkeyed _ _ he
          by_cases met : e.name ∈ order.map (·.name)
          · exact .inl (.inl (same ▸ met))
          · exact .inl (.inr (by simp [chain_of_type? he met, same]))
        · exact .inr (.inr hmem)
    · exact .inr (.inl (List.mem_flatMap.2 ⟨d, hd, (mem_searchedCapabilities acyclic).2 hn⟩))

theorem isSearched_lookupOrder (hkeyed : IsKeyed c.types) (name : String) :
    c.IsSearched (c.lookupOrder name) [] :=
  searchFrom_induction (P := c.IsSearched) (fun _ _ _ h => h.walk hkeyed)
    ⟨by simp, by simp, by simp⟩

/-- The names of the types that are searched. -/
def searched (c : Catalog) (name : String) : Set String :=
  {n | n ∈ (c.lookupOrder name).map (·.name)}

theorem isClosed_searched (hkeyed : IsKeyed c.types) (name : String) :
    c.IsClosed (c.searched name) := by
  have h := isSearched_lookupOrder hkeyed name
  intro n hn acyclic d hd m hm declared
  obtain ⟨e, he, rfl⟩ := List.mem_map.1 hn
  have same := h.declared e he
  rw [hd] at same
  cases same
  rcases hm with hm | hm
  · exact h.parent d he acyclic m hm declared
  · rcases h.capability d he acyclic m hm declared with hmem | hmem
    · exact hmem
    · cases hmem

/-- A search from inside a closed set does not leave it. -/
theorem searched_subset (hkeyed : IsKeyed c.types) {S : Set String} (hS : c.IsClosed S)
    (hname : name ∈ S) : c.searched name ⊆ S := by
  have inside := @searchFrom_induction c [] [name]
    (fun order pending => (∀ d ∈ order, d.name ∈ S) ∧
      ∀ n ∈ pending, (c.type? n).isSome → n ∈ S) ?_ (by simp [hname])
  · intro n hn
    obtain ⟨d, hd, rfl⟩ := List.mem_map.1 hn
    exact inside.1 d hd
  · rintro order name rest ⟨horder, hpending⟩
    rw [List.forall_mem_cons] at hpending
    have passed : ∀ d ∈ c.chain (order.map (·.name)) name, d.name ∈ S :=
      fun d hd => mem_of_mem_chain hkeyed hS hpending.1 hd
    refine ⟨fun d hd => ?_, fun n hn declared => ?_⟩
    · exact (List.mem_append.1 hd).elim (horder d) (passed d)
    · rcases List.mem_append.1 hn with hn | hn
      · obtain ⟨d, hd, hn⟩ := List.mem_flatMap.1 hn
        rw [searchedCapabilities] at hn
        split at hn
        · cases hn
        · rename_i acyclic
          exact hS d.name (passed d hd) (Bool.eq_false_iff.2 acyclic) d
            (type?_of_mem_chain hkeyed hd) n (.inr hn) declared
      · exact hpending.2 n hn declared

/-! ### Catalogs whose types stand under their own names -/

/-- The ways to a catalog whose types stand under their own names: from declarations, by adding a
type or an enumeration, by a load, or from maps that are so. -/
inductive IsBuilt : Catalog → Prop
  | ofMaps {types : OrderedMap TypeDeclaration} (enums : OrderedMap Enumeration)
      (hconsistent : types.IsConsistent) (hkeyed : IsKeyed types) : IsBuilt (ofMaps types enums)
  | ofDeclarations (types : List TypeDeclaration) (enums : List Enumeration) :
      IsBuilt (ofDeclarations types enums)
  | insertType {c : Catalog} (d : TypeDeclaration) (h : IsBuilt c) : IsBuilt (c.insertType d)
  | insertEnum {c : Catalog} (d : Enumeration) (h : IsBuilt c) : IsBuilt (c.insertEnum d)
  | load (settings : LoadSettings) (sources : List Source) :
      IsBuilt (load settings sources).catalog

theorem isKeyed_augmentAll {s : Collected} {K : Declaration → Prop} (h : s.Holds K) :
    IsKeyed s.augmentAll.types := by
  intro name d hd
  rw [Collected.get?_augmentAll] at hd
  obtain ⟨e, he, rfl⟩ := Option.map_eq_some_iff.1 hd
  exact (h.type name e he).1

/-- However a catalog is built, its types stand under their own names in a consistent map, and
the facts derived from them are those of that map. -/
theorem IsBuilt.exists_eq_ofMaps (h : c.IsBuilt) :
    ∃ types enums, types.IsConsistent ∧ IsKeyed types ∧ c = Catalog.ofMaps types enums := by
  induction h with
  | ofMaps enums hconsistent hkeyed => exact ⟨_, enums, hconsistent, hkeyed, rfl⟩
  | ofDeclarations types enums => exact ⟨_, _, .ofList _, OrderedMap.IsKeyed.ofList types, rfl⟩
  | insertType d _ ih =>
    obtain ⟨types, enums, hconsistent, hkeyed, rfl⟩ := ih
    exact ⟨_, _, hconsistent.insert _ _, OrderedMap.IsKeyed.insert hkeyed d, rfl⟩
  | insertEnum d _ ih =>
    obtain ⟨types, enums, hconsistent, hkeyed, rfl⟩ := ih
    exact ⟨_, _, hconsistent, hkeyed, rfl⟩
  | load settings sources =>
    have h : (Collected.ofSources settings.duplicates sources).Holds fun _ => True :=
      Collected.holds_ofSources (fun _ => trivial) _ _
    exact ⟨_, _, h.isConsistent_augmentAll, isKeyed_augmentAll h, rfl⟩

theorem IsBuilt.isKeyed (h : c.IsBuilt) : IsKeyed c.types := by
  obtain ⟨types, enums, -, hkeyed, rfl⟩ := h.exists_eq_ofMaps
  exact hkeyed

theorem IsBuilt.isConsistent (h : c.IsBuilt) : c.types.IsConsistent := by
  obtain ⟨types, enums, hconsistent, -, rfl⟩ := h.exists_eq_ofMaps
  exact hconsistent

theorem type?_ofDeclarations {types : List TypeDeclaration} (enums : List Enumeration)
    (distinct : (types.map (·.name)).Nodup) :
    (ofDeclarations types enums).type? name = types.find? (·.name = name) := by
  have entries : ((types.map fun d => (d.name, d)).map (·.1)).Nodup := by
    rwa [List.map_map]
  have values := (OrderedMap.foldl_insert_of_nodup (m := .empty) entries fun _ _ => rfl).2 name
  show (OrderedMap.ofList (types.map fun d => (d.name, d))).get? name = _
  rw [OrderedMap.ofList, values, OrderedMap.get?_empty, Option.or_none, List.find?_map,
    Option.map_map]
  exact congrFun Option.map_id _

/-- A declared type is cyclic exactly if it has no lineage. -/
theorem IsBuilt.isCyclic_iff (h : c.IsBuilt) :
    c.isCyclic name = true ↔ c.types.contains name = true ∧ ¬∃ ds, Lineage c.types name ds := by
  obtain ⟨types, enums, hconsistent, hkeyed, rfl⟩ := h.exists_eq_ofMaps
  exact isCyclic_ofMaps_iff hkeyed hconsistent

theorem lookupOrder_eq (c : Catalog) (name : String) :
    c.lookupOrder name =
      c.searchFrom (c.chain [] name) ((c.chain [] name).flatMap c.searchedCapabilities) := by
  rw [lookupOrder, searchFrom_cons]
  simp

theorem lookupOrder_of_isCyclic (hkeyed : IsKeyed c.types) (hd : c.type? name = some d)
    (hcyclic : c.isCyclic name = true) : c.lookupOrder name = [d] := by
  have chain : c.chain [] name = [d] := by
    rw [chain_of_type? hd (by simp), hkeyed _ _ hd, hcyclic]
    rfl
  rw [lookupOrder_eq, chain, List.flatMap_singleton, searchedCapabilities, hkeyed _ _ hd, hcyclic]
  rw [if_pos rfl, searchFrom]

theorem IsBuilt.chain_of_lineage (h : c.IsBuilt) {ds : List TypeDeclaration}
    (hds : Lineage c.types name ds) (hseen : ∀ d ∈ ds, d.name ∉ seen) : c.chain seen name = ds := by
  refine Catalog.chain_of_lineage h.isKeyed (fun n es hes => ?_) hds hseen
  rw [Bool.eq_false_iff, Ne, h.isCyclic_iff]
  exact fun hn => hn.2 ⟨es, hes⟩

theorem IsBuilt.lineage_isPrefix_lookupOrder (h : c.IsBuilt) {ds : List TypeDeclaration}
    (hds : Lineage c.types name ds) : ds <+: c.lookupOrder name := by
  rw [lookupOrder_eq, h.chain_of_lineage hds (by simp)]
  exact isPrefix_searchFrom c _ _

/-- Without capabilities a search does not leave the lineage. -/
theorem IsBuilt.lookupOrder_of_lineage (h : c.IsBuilt) {ds : List TypeDeclaration}
    (hds : Lineage c.types name ds) (hcapabilities : ∀ d ∈ ds, d.capabilities = []) :
    c.lookupOrder name = ds := by
  have none : ds.flatMap c.searchedCapabilities = [] := by
    refine List.flatMap_eq_nil_iff.2 fun d hd => ?_
    rw [searchedCapabilities, hcapabilities d hd, ite_self]
  rw [lookupOrder_eq, h.chain_of_lineage hds (by simp), none, searchFrom]

/-- A declared type is searched first. -/
theorem exists_lookupOrder_eq_cons (hd : c.type? name = some d) :
    ∃ rest, c.lookupOrder name = d :: rest := by
  obtain ⟨rest, hrest⟩ := isPrefix_searchFrom c (c.chain [] name)
    ((c.chain [] name).flatMap c.searchedCapabilities)
  rw [lookupOrder_eq, ← hrest, chain_of_type? hd (by simp)]
  exact ⟨_, rfl⟩

/-- What is searched from a declared type is the least closed set that it belongs to. -/
theorem isLeast_searched (hkeyed : IsKeyed c.types) (hd : c.type? name = some d) :
    IsLeast {S | name ∈ S ∧ c.IsClosed S} (c.searched name) := by
  refine ⟨⟨?_, isClosed_searched hkeyed name⟩, fun S hS => searched_subset hkeyed hS.2 hS.1⟩
  obtain ⟨rest, hrest⟩ := exists_lookupOrder_eq_cons hd
  exact List.mem_map.2 ⟨d, by simp [hrest], hkeyed _ _ hd⟩

theorem isSubtype_iff {sub sup : String} :
    c.isSubtype sub sup = true ↔ sub = sup ∨ sup ∈ c.searched sub := by
  rw [isSubtype, Bool.or_eq_true, beq_iff_eq, List.any_eq_true]
  show _ ∨ _ ↔ _ ∨ sup ∈ (c.lookupOrder sub).map (·.name)
  simp

theorem isSubtype_trans (hkeyed : IsKeyed c.types) {n m k : String}
    (hnm : c.isSubtype n m = true) (hmk : c.isSubtype m k = true) : c.isSubtype n k = true := by
  rw [isSubtype_iff] at hnm hmk ⊢
  rcases hnm with rfl | hnm
  · exact hmk
  · rcases hmk with rfl | hmk
    · exact .inr hnm
    · exact .inr (searched_subset hkeyed (isClosed_searched hkeyed n) hnm hmk)

/-- What is searched from a type in an order of search is in that order too. -/
theorem mem_lookupOrder_trans (hkeyed : IsKeyed c.types) (hd : d ∈ c.lookupOrder name)
    (he : e ∈ c.lookupOrder d.name) : e ∈ c.lookupOrder name := by
  have inside : c.searched d.name ⊆ c.searched name :=
    searched_subset hkeyed (isClosed_searched hkeyed name) (List.mem_map.2 ⟨d, hd, rfl⟩)
  obtain ⟨b, hb, same⟩ := List.mem_map.1 (inside (List.mem_map.2 ⟨e, he, rfl⟩))
  -- both are what is declared under that name
  have hb' := (isSearched_lookupOrder hkeyed name).declared b hb
  rw [same, (isSearched_lookupOrder hkeyed d.name).declared e he] at hb'
  cases hb'
  exact hb

/-- A type is a subtype of its parent and of its capabilities. -/
theorem isSubtype_of_declared (hkeyed : IsKeyed c.types) (hd : c.type? name = some d)
    (hcyclic : c.isCyclic name = false) {sup : String}
    (hsup : d.parent = some sup ∨ sup ∈ d.capabilities) (declared : (c.type? sup).isSome) :
    c.isSubtype name sup = true :=
  have searched := (isLeast_searched hkeyed hd).1
  isSubtype_iff.2 (.inr (searched.2 name searched.1 hcyclic d hd sup hsup declared))

/-- In any catalog whatsoever the order of search has no type twice, and no more types than
there are. In a catalog whose types stand under their own names, it begins with the lineage of a
declared type, or is the type alone if that has none, and it has exactly the types in the least
set with the type, the declared parent of each member that has a lineage and its declared
capabilities. So being a subtype is reflexive and transitive. -/
theorem lookupOrder_spec (c : Catalog) (name : String) :
    ((c.lookupOrder name).map (·.name)).Nodup ∧
    (c.lookupOrder name).length ≤ c.types.entries.size ∧
    (c.IsBuilt →
      (∀ d, c.type? name = some d →
        ((c.isCyclic name = true ∧ (¬∃ ds, Lineage c.types name ds) ∧ c.lookupOrder name = [d]) ∨
          (c.isCyclic name = false ∧
            ∃ ds, Lineage c.types name (d :: ds) ∧ d :: ds <+: c.lookupOrder name)) ∧
        IsLeast {S | name ∈ S ∧ c.IsClosed S} (c.searched name)) ∧
      c.isSubtype name name = true ∧
      ∀ m k, c.isSubtype name m = true → c.isSubtype m k = true → c.isSubtype name k = true) := by
  refine ⟨nodup_searchFrom .nil, length_lookupOrder_le c name,
    fun h => ⟨fun d hd => ⟨?_, ?_⟩, ?_, ?_⟩⟩
  · have declared : c.types.contains name = true := OrderedMap.contains_of_get? hd
    by_cases hcyclic : c.isCyclic name = true
    · exact .inl ⟨hcyclic, (h.isCyclic_iff.1 hcyclic).2,
        lookupOrder_of_isCyclic h.isKeyed hd hcyclic⟩
    · have hlineage : ∃ ds, Lineage c.types name ds := by
        by_contra none
        exact hcyclic (h.isCyclic_iff.2 ⟨declared, none⟩)
      obtain ⟨ds, hds⟩ := hlineage
      obtain ⟨rest, rfl⟩ := hds.exists_cons hd
      exact .inr ⟨Bool.eq_false_iff.2 hcyclic, rest, hds, h.lineage_isPrefix_lookupOrder hds⟩
  · exact isLeast_searched h.isKeyed hd
  · exact isSubtype_iff.2 (.inl rfl)
  · exact fun m k => isSubtype_trans h.isKeyed

/-- Two interfaces that have each other are searched from either of them. -/
theorem lookupOrder_spec_loop :
    let c := ofDeclarations
      [((TypeDeclaration.ofInterface "A").withParent "P").withCapability "B",
        (TypeDeclaration.ofInterface "B").withCapability "A", TypeDeclaration.ofInterface "P"] []
    ((c.lookupOrder "A").map (·.name)).Nodup ∧
      IsLeast {S | "A" ∈ S ∧ c.IsClosed S} (c.searched "A") :=
  have found := lookupOrder_spec _ "A"
  ⟨found.1, ((found.2.2 (.ofDeclarations _ _)).1 _ rfl).2⟩

end ApiCatalog.Catalog
