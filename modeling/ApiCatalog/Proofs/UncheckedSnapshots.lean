import ApiCatalog.Proofs.SnapshotRoundTrip

/-!
# What a snapshot stores is not checked

A catalog made of declarations is well formed: the orders of its maps list their names once each,
and the derived facts are those of the declarations. A restored catalog is well formed exactly if
what is stored says so: whatever orders, entries, cyclic types and overrides bytes hold are taken as
they stand. What is written of a well-formed catalog is restored as one.

Main statement: `Catalog.ofSnapshot_unchecked`.
-/

namespace ApiCatalog

open MessagePack

/-! ### Well-formed catalogs and snapshots -/

/-- Whether the orders list the declared names once each and the derived facts are those of the
declarations. -/
structure Catalog.IsWellFormed (c : Catalog) : Prop where
  types : c.types.IsConsistent
  enums : c.enums.IsConsistent
  cyclic : c.cyclic = .ofNames (cyclicNames c.types)
  overrides : c.overrides = (ofMaps c.types c.enums).overrides

theorem Catalog.IsWellFormed.ofMaps {types : OrderedMap TypeDeclaration}
    {enums : OrderedMap Enumeration} (htypes : types.IsConsistent) (henums : enums.IsConsistent) :
    (Catalog.ofMaps types enums).IsWellFormed := ⟨htypes, henums, rfl, rfl⟩

/-- Whether the stored order lists the stored names once each. -/
structure StoredMap.IsConsistent {α : Type} (s : StoredMap α) : Prop where
  nodup : s.order.Nodup
  mem_iff : ∀ name, name ∈ s.order ↔ name ∈ s.entries.map (·.1)

/-- Whether the stored orders list the stored names once each and the stored facts are those of the
stored declarations. -/
structure Snapshot.IsWellFormed (s : Snapshot) : Prop where
  types : s.types.IsConsistent
  enums : s.enums.IsConsistent
  cyclic : ∀ name, name ∈ s.cyclic ↔ name ∈ Catalog.cyclicNames s.types.toMap
  overrides : NameMap.ofList (s.overrides.map fun e => (e.1, NameMap.ofList e.2)) =
    (Catalog.ofMaps s.types.toMap s.enums.toMap).overrides

theorem NameSet.ofNames_eq_iff {names names' : List String} :
    NameSet.ofNames names = .ofNames names' ↔ ∀ name, name ∈ names ↔ name ∈ names' := by
  constructor
  · intro same name
    rw [← NameSet.contains_ofNames, same, NameSet.contains_ofNames]
  · intro same
    refine NameMap.ext_get? fun name => ?_
    have contains :
        (NameSet.ofNames names).contains name = (NameSet.ofNames names').contains name :=
      Bool.eq_iff_iff.2 (by rw [contains_ofNames, contains_ofNames, same])
    -- A name of a set has the one value that there is.
    rw [NameMap.contains, NameMap.contains] at contains
    cases found : (NameSet.ofNames names).get? name <;>
      cases found' : (NameSet.ofNames names').get? name <;> simp_all

theorem StoredMap.isConsistent_toMap_iff {α : Type} {s : StoredMap α} :
    s.toMap.IsConsistent ↔ s.IsConsistent := by
  have contains (name : String) :
      s.toMap.contains name = true ↔ name ∈ s.entries.map (·.1) := NameMap.contains_ofList
  exact ⟨fun h => ⟨h.nodup, fun name => (h.mem_iff name).trans (contains name)⟩,
    fun h => ⟨h.nodup, fun name => (h.mem_iff name).trans (contains name).symm⟩⟩

theorem Snapshot.isWellFormed_catalog_iff {s : Snapshot} :
    s.catalog.IsWellFormed ↔ s.IsWellFormed :=
  ⟨fun ⟨types, enums, cyclic, overrides⟩ => ⟨StoredMap.isConsistent_toMap_iff.1 types,
      StoredMap.isConsistent_toMap_iff.1 enums, NameSet.ofNames_eq_iff.1 cyclic, overrides⟩,
    fun ⟨types, enums, cyclic, overrides⟩ => ⟨StoredMap.isConsistent_toMap_iff.2 types,
      StoredMap.isConsistent_toMap_iff.2 enums, NameSet.ofNames_eq_iff.2 cyclic, overrides⟩⟩

namespace Catalog

variable (wording : List UInt8 → String)

theorem ofSnapshot_of_fits {s : Snapshot} (fits : s.pack.fits = true)
    (levels : s.packedLevels ≤ snapshotDepth) (rest : List UInt8) :
    ofSnapshot wording (s.bytes ++ rest) = .ok s.catalog := by
  rw [ofSnapshot, ofSnapshot?_eq_map, Snapshot.read?_bytes fits, within_eq_some levels]
  rfl

/-- A restored catalog is what the bytes store, unchecked, and well formed exactly if that is; bytes
that store nothing are a problem of serialization. Whatever can be stored is restored, and what is
written of a catalog made of maps is well formed again. -/
theorem ofSnapshot_unchecked :
    (∀ bytes,
      (∃ s, Snapshot.read? bytes = some s ∧ ofSnapshot wording bytes = .ok s.catalog ∧
        (s.catalog.IsWellFormed ↔ s.IsWellFormed)) ∨
      Snapshot.read? bytes = none ∧
        ofSnapshot wording bytes = .error ⟨.serialization (wording bytes), none⟩) ∧
    (∀ s : Snapshot, s.pack.fits = true → s.packedLevels ≤ snapshotDepth → ∀ rest,
      ofSnapshot wording (s.bytes ++ rest) = .ok s.catalog) ∧
    ∀ types enums, types.IsConsistent → enums.IsConsistent →
      (ofMaps types enums).pack.fits = true → (ofMaps types enums).packedLevels ≤ snapshotDepth →
      ∀ s : Snapshot, s.IsOf (ofMaps types enums) → ∀ rest,
        ∃ c, ofSnapshot wording (s.bytes ++ rest) = .ok c ∧ c.IsWellFormed := by
  refine ⟨fun bytes => ?_, fun s fits levels rest => ofSnapshot_of_fits wording fits levels rest,
    fun types enums htypes henums fits levels s hs rest =>
      ⟨ofMaps types enums, ?_, .ofMaps htypes henums⟩⟩
  · rw [ofSnapshot, ofSnapshot?_eq_map]
    cases read : Snapshot.read? bytes with
    | none => exact .inr ⟨rfl, rfl⟩
    | some s => exact .inl ⟨s, rfl, rfl, Snapshot.isWellFormed_catalog_iff⟩
  · rw [ofSnapshot_bytes_of_isOf wording hs fits rest, if_pos levels]

/-- A catalog of one enumeration, made of maps. -/
def ofNumbers : Catalog :=
  ofMaps .empty <| .ofList [("Numbers",
    { name := "Numbers", kind := .number, symbols :=
      [⟨"LOW", .int (-129)⟩, ⟨"HIGH", .int 65536⟩] })]

/-- A snapshot that lists a type twice without declaring it, calls it cyclic and has one of its
members shadow another. -/
def stale : Snapshot := ⟨⟨["A", "A"], []⟩, ⟨[], []⟩, ["A"], [("A", [("x", "B")])]⟩

theorem ofSnapshot_unchecked_stale :
    ofSnapshot (fun _ => "") stale.bytes = .ok stale.catalog ∧
      ∃ c, ofSnapshot (fun _ => "") (Snapshot.ofCatalog ofNumbers).bytes = .ok c ∧
        c.IsWellFormed := by
  have stored := (ofSnapshot_unchecked fun _ => "").2.1 stale (by decide +kernel) (by decide) []
  have written := (ofSnapshot_unchecked fun _ => "").2.2 .empty _ .empty (.ofList _)
    (by decide +kernel) (by decide +kernel) (.ofCatalog ofNumbers) (Snapshot.ofCatalog_isOf _) []
  rw [List.append_nil] at stored written
  exact ⟨stored, written⟩

/-- What is stored may break every rule of a well-formed catalog at once. -/
theorem ofSnapshot_stale :
    ofSnapshot (fun _ => "") stale.bytes = .ok stale.catalog ∧
      ¬ stale.catalog.types.order.Nodup ∧
      ¬ (∀ name, name ∈ stale.catalog.types.order ↔ stale.catalog.types.contains name = true) ∧
      stale.catalog.cyclic ≠ (ofMaps stale.catalog.types stale.catalog.enums).cyclic ∧
      stale.catalog.overrides ≠ (ofMaps stale.catalog.types stale.catalog.enums).overrides := by
  refine ⟨?_, by decide, fun h => ?_, fun h => ?_, fun h => ?_⟩
  · have restored :=
      ofSnapshot_of_fits (fun _ => "") (s := stale) (by decide +kernel) (by decide) []
    rwa [List.append_nil] at restored
  · exact absurd ((h "A").1 (by decide)) (by decide)
  · have stored : stale.catalog.isCyclic "A" = true := by decide
    rw [isCyclic, h] at stored
    have computed : "A" ∈ cyclicNames stale.catalog.types := NameSet.contains_ofNames.1 stored
    -- What is not declared has no parent to follow.
    rw [cyclicNames, List.mem_filter, revisitFrom?] at computed
    exact absurd computed.2 (by decide)
  · have overrides := congrArg (·.contains "A") h
    exact absurd overrides (by decide)

end Catalog

end ApiCatalog
