import ApiCatalog.Proofs.ShadowedMembers
import ApiCatalog.Proofs.SnapshotContents

/-!
# Snapshots restore the catalog

The maps and sets of a catalog may be stored in any order, since one made of the entries of another
is that other. So a catalog is restored from its snapshot whatever the order, provided that the
format can hold the lengths of its texts and lists, and exactly if it nests no more levels than a
snapshot may.

Main statement: `Catalog.ofSnapshot_bytes`.
-/

namespace ApiCatalog

open MessagePack

/-! ### Maps from their entries -/

/-- A map is made of entries if they have its values and all of its names. -/
theorem NameMap.ofList_map_eq {α β : Type} {m : NameMap β} {entries : List (String × α)} {f : α → β}
    (values : ∀ e ∈ entries, m.get? e.1 = some (f e.2))
    (names : ∀ name ∈ m.names, name ∈ entries.map (·.1)) :
    ofList (entries.map fun e => (e.1, f e.2)) = m := by
  have given : ∀ e ∈ entries.map fun e => (e.1, f e.2), m.get? e.1 = some e.2 := fun e he => by
    obtain ⟨e, hmem, rfl⟩ := List.mem_map.1 he
    exact values e hmem
  have consistent : ∀ e ∈ entries.map fun e => (e.1, f e.2),
      ∀ e' ∈ entries.map fun e => (e.1, f e.2), e.1 = e'.1 → e.2 = e'.2 := fun e he e' he' same =>
    Option.some.inj ((given e he).symm.trans (same ▸ given e' he'))
  refine ext_get? fun name => Option.ext fun value => ?_
  rw [get?_ofList consistent]
  refine ⟨fun hmem => given _ hmem, fun hget => ?_⟩
  have hname : name ∈ m.names :=
    contains_iff_mem_names.1 (by rw [contains, hget]; rfl)
  obtain ⟨e, he, rfl⟩ := List.mem_map.1 (names name hname)
  exact List.mem_map.2 ⟨e, he, by rw [Option.some.inj ((values e he).symm.trans hget)]⟩

theorem NameMap.ofList_of_perm {α : Type} {m : NameMap α} {entries : List (String × α)}
    (h : entries.Perm m.entries) : ofList entries = m := by
  have all : ofList (entries.map fun e => (e.1, id e.2)) = m :=
    ofList_map_eq (fun e he => get?_eq_some_iff.2 (h.mem_iff.1 he)) fun name hname =>
      (h.map (·.1)).mem_iff.2 hname
  simpa using all

/-! ### Snapshots of a catalog -/

/-- Whether an ordered map is stored, its entries in any order. -/
structure StoredMap.IsOf {α : Type} (s : StoredMap α) (m : OrderedMap α) : Prop where
  order : s.order = m.order
  entries : s.entries.Perm m.entries.entries

/-- Whether a catalog is stored, the entries of each map and set in any order. -/
structure Snapshot.IsOf (s : Snapshot) (c : Catalog) : Prop where
  types : s.types.IsOf c.types
  enums : s.enums.IsOf c.enums
  cyclic : s.cyclic.Perm c.cyclic.names
  overrides : (s.overrides.map (·.1)).Perm c.overrides.names
  members : ∀ e ∈ s.overrides, ∃ m, c.overrides.get? e.1 = some m ∧ e.2.Perm m.entries

theorem StoredMap.IsOf.toMap_eq {α : Type} {s : StoredMap α} {m : OrderedMap α} (h : s.IsOf m) :
    s.toMap = m := by
  rw [toMap, h.order, NameMap.ofList_of_perm h.entries]

theorem StoredMap.IsOf.fits_pack {α : Type} {packValue : α → MessagePack} {s : StoredMap α}
    {m : OrderedMap α} (h : s.IsOf m) (fits : (ofOrderedMap packValue m).fits = true) :
    (s.pack packValue).fits = true := by
  rw [ofOrderedMap, fits_struct] at fits
  rw [pack, fits_struct, h.order]
  simp only [List.forall_mem_cons, List.not_mem_nil, false_implies, implies_true, and_true]
    at fits ⊢
  exact ⟨fits.1, fits.2.1, fits.2.2.1, fits_ofEntries_of_perm h.entries fits.2.2.2⟩

namespace Snapshot

variable {s : Snapshot} {c : Catalog}

theorem IsOf.catalog_eq (h : s.IsOf c) : s.catalog = c := by
  have entries : c.cyclic.names.map (fun name => (name, ())) = c.cyclic.entries := by
    rw [NameMap.names, List.map_map]
    exact List.map_id _
  have cyclic : NameSet.ofNames s.cyclic = c.cyclic :=
    NameMap.ofList_of_perm (entries ▸ h.cyclic.map _)
  have overrides : NameMap.ofList (s.overrides.map fun e => (e.1, NameMap.ofList e.2)) =
      c.overrides :=
    NameMap.ofList_map_eq
      (fun e he => by
        obtain ⟨m, hm, same⟩ := h.members e he
        rw [hm, NameMap.ofList_of_perm same])
      fun name hname => h.overrides.mem_iff.2 hname
  rw [catalog, h.types.toMap_eq, h.enums.toMap_eq, cyclic, overrides]

/-- The snapshot whose entries stand in ascending order of their names. -/
def ofCatalog (c : Catalog) : Snapshot :=
  ⟨⟨c.types.order, c.types.entries.entries⟩, ⟨c.enums.order, c.enums.entries.entries⟩,
    c.cyclic.names, c.overrides.entries.map fun e => (e.1, e.2.entries)⟩

theorem ofCatalog_isOf (c : Catalog) : (ofCatalog c).IsOf c where
  types := ⟨rfl, .refl _⟩
  enums := ⟨rfl, .refl _⟩
  cyclic := .refl _
  overrides := .of_eq (by simp [ofCatalog, NameMap.names])
  members e he := by
    obtain ⟨d, hd, rfl⟩ := List.mem_map.1 he
    exact ⟨d.2, NameMap.get?_eq_some_iff.2 hd, .refl _⟩

theorem pack_ofCatalog (c : Catalog) : (ofCatalog c).pack = c.pack := by
  simp [pack, ofCatalog, Catalog.pack, StoredMap.pack, ofOrderedMap, ofNameMap, ofNameSet,
    ofEntries, Function.comp_def]

/-! ### Limits -/

theorem IsOf.packedLevels_eq (h : s.IsOf c) : s.packedLevels = (ofCatalog c).packedLevels := by
  rw [packedLevels, packedLevels, StoredMap.packedLevels, StoredMap.packedLevels,
    listLevels_of_perm h.types.entries, listLevels_of_perm h.enums.entries]
  rfl

/-- What the format can hold of a catalog it can hold in any order. -/
theorem IsOf.fits_pack (h : s.IsOf c) (fits : c.pack.fits = true) : s.pack.fits = true := by
  rw [Catalog.pack, fits_struct] at fits
  rw [pack, fits_struct]
  obtain ⟨length, fits⟩ := fits
  simp only [List.forall_mem_cons, List.not_mem_nil, false_implies, implies_true, and_true]
    at fits ⊢
  obtain ⟨⟨typesName, types⟩, ⟨enumsName, enums⟩, ⟨cyclicName, cyclic⟩, overridesName, overrides⟩ :=
    fits
  refine ⟨length, ⟨typesName, h.types.fits_pack types⟩, ⟨enumsName, h.enums.fits_pack enums⟩,
    ⟨cyclicName, ?_⟩, overridesName, ?_⟩
  · rw [ofNameSet, fits_ofList] at cyclic
    rw [fits_ofList]
    exact ⟨h.cyclic.length_eq ▸ cyclic.1,
      fun name hname => cyclic.2 name (h.cyclic.mem_iff.1 hname)⟩
  · have outer : (ofEntries (ofNameMap ofString) c.overrides.entries).fits = true := overrides
    rw [fits_ofEntries] at outer ⊢
    have length : s.overrides.length = c.overrides.entries.length := by
      simpa [NameMap.names] using h.overrides.length_eq
    refine ⟨length ▸ outer.1, fun e he => ?_⟩
    obtain ⟨m, hm, same⟩ := h.members e he
    obtain ⟨name, inner⟩ := outer.2 _ (NameMap.get?_eq_some_iff.1 hm)
    exact ⟨name, fits_ofEntries_of_perm same inner⟩

/-! ### Reading a snapshot -/

theorem read?_bytes (fits : s.pack.fits = true) (rest : List UInt8) :
    read? (s.bytes ++ rest) = within s.packedLevels Catalog.snapshotDepth s := by
  rw [read?, bytes, MessagePack.read_bytes fits, Option.bind_some]
  exact restores s _

end Snapshot

namespace Catalog

/-- How many levels a packed catalog nests. -/
def packedLevels (c : Catalog) : Nat := (Snapshot.ofCatalog c).packedLevels

/-- Nothing but type expressions can nest too many levels. -/
theorem packedLevels_le {c : Catalog} {n : Nat}
    (h : ∀ e ∈ c.types.entries.entries, ∀ t ∈ e.2.types, t.packedLevels ≤ n) :
    c.packedLevels ≤ n + 9 := by
  have types : listLevels (fun e : String × TypeDeclaration => e.2.packedLevels)
      c.types.entries.entries ≤ n + 7 :=
    listLevels_le fun e he => TypeDeclaration.packedLevels_le (h e he)
  have enums : listLevels (fun e : String × Enumeration => e.2.packedLevels)
      c.enums.entries.entries ≤ 4 :=
    listLevels_le fun e _ => e.2.packedLevels_le
  show max (_ + 1) (_ + 1) + 1 ≤ n + 9
  simp only [Snapshot.ofCatalog]
  omega

variable {c : Catalog} {s : Snapshot} (wording : List UInt8 → String)

theorem ofSnapshot_bytes_of_isOf (h : s.IsOf c) (fits : c.pack.fits = true) (rest : List UInt8) :
    ofSnapshot wording (s.bytes ++ rest) =
      if c.packedLevels ≤ snapshotDepth then .ok c
      else .error ⟨.serialization (wording (s.bytes ++ rest)), none⟩ := by
  have levels : s.packedLevels = c.packedLevels := h.packedLevels_eq
  rw [ofSnapshot, ofSnapshot?_eq_map, Snapshot.read?_bytes (h.fits_pack fits), map_within,
    h.catalog_eq, levels]
  by_cases room : c.packedLevels ≤ snapshotDepth <;> simp [within, room]

/-- A snapshot restores its catalog, in whatever order the entries of its maps and sets are written,
exactly if the catalog nests no more levels than a snapshot may; only type expressions can nest too
many. The bytes of a catalog are a snapshot of it, with the entries in ascending order. -/
theorem ofSnapshot_bytes (c : Catalog) (fits : c.pack.fits = true) :
    (∀ s : Snapshot, s.IsOf c → ∀ rest, ofSnapshot wording (s.bytes ++ rest) =
      if c.packedLevels ≤ snapshotDepth then .ok c
      else .error ⟨.serialization (wording (s.bytes ++ rest)), none⟩) ∧
    (∃ s : Snapshot, s.IsOf c ∧ s.bytes = c.snapshot) ∧
    ((∀ e ∈ c.types.entries.entries, ∀ t ∈ e.2.types, t.packedLevels + 9 ≤ snapshotDepth) →
      c.packedLevels ≤ snapshotDepth) := by
  refine ⟨fun s h rest => ofSnapshot_bytes_of_isOf wording h fits rest,
    ⟨.ofCatalog c, Snapshot.ofCatalog_isOf c, ?_⟩, fun h => ?_⟩
  · rw [Snapshot.bytes, Snapshot.pack_ofCatalog]
    rfl
  · exact packedLevels_le (n := snapshotDepth - 9) fun e he t ht =>
      Nat.le_sub_of_add_le (h e he t ht)

/-- A catalog with a cyclic type, a member that shadows another and numbers of every kind, one of
them none and one a zero with a sign. -/
def small : Catalog where
  types := .ofList
    [("Loop", { name := "Loop", kind := .classLike, parent := some "Loop" }),
      ("Base", { name := "Base", kind := .interface, members :=
        [.property "value" (.nullable (.named "Loop"))] }),
      ("Heir", { name := "Heir", kind := .classLike, parent := some "Base", members :=
        [.property "value" (.named "Loop"),
          .method "on" [⟨"listener", .function [(.any, true)] .unknown, true⟩]
            (.primitive .void)] })]
  enums := .ofList
    [("Numbers", { name := "Numbers", kind := .number, symbols :=
      [⟨"NONE", .float ⟨0x7ff8000000000001⟩⟩, ⟨"NEGATIVE_ZERO", .float ⟨0x8000000000000000⟩⟩,
        ⟨"LOW", .int (-129)⟩, ⟨"HIGH", .int 65536⟩] })]
  cyclic := .ofNames ["Loop"]
  overrides := .ofList [("Heir", .ofList [("value", "Base")])]

theorem ofSnapshot_snapshot_small :
    small.pack.fits = true ∧ ofSnapshot (fun _ => "") small.snapshot = .ok small := by
  have fits : small.pack.fits = true := by decide +kernel
  obtain ⟨restored, ⟨s, hs, bytes⟩, shallow⟩ := ofSnapshot_bytes (fun _ => "") small fits
  have snapshot := restored s hs []
  rw [if_pos (shallow (by decide +kernel)), List.append_nil, bytes] at snapshot
  exact ⟨fits, snapshot⟩

end Catalog

end ApiCatalog
