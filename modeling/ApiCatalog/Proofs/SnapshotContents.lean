import ApiCatalog.Proofs.PackedDeclarations

/-!
# What a snapshot stores

The maps and sets of a catalog are stored as entries one after the other, in an order that says
nothing about the catalog. So what bytes store is kept apart from the catalog that is made of it:
a `Snapshot` has its entries in the order in which they stand, names perhaps twice. It is packed and
unpacked like a catalog, and the catalog of bytes is the one that what they store amounts to,
whatever that is.

Main statements: `Snapshot.restores`, `Catalog.ofSnapshot?_eq_map`.
-/

namespace ApiCatalog

open MessagePack

/-! ### Stored maps -/

/-- What is stored of an ordered map. -/
structure StoredMap (α : Type) where
  order : List String
  entries : List (String × α)

namespace StoredMap

variable {α : Type}

/-- The packed stored map. -/
def pack (packValue : α → MessagePack) (m : StoredMap α) : MessagePack :=
  struct [("order", ofList ofString m.order), ("entries", ofEntries packValue m.entries)]

/-- The stored map that a value is. -/
def unpack (unpackValue : Unpacker α) : Unpacker (StoredMap α) :=
  struct? ["order", "entries"] fun
    | room, [order, entries] => do
      some ⟨← requiredField (strings? room) order,
        ← requiredField (entries? unpackValue room) entries⟩
    | _, _ => none

/-- The ordered map that is stored; of entries with the same name the last one counts. -/
def toMap (m : StoredMap α) : OrderedMap α := ⟨m.order, .ofList m.entries⟩

/-- How many levels a packed stored map nests. -/
def packedLevels (levels : α → Nat) (m : StoredMap α) : Nat :=
  listLevels (levels ·.2) m.entries + 1

theorem restores {levels : α → Nat} {packValue : α → MessagePack} {unpackValue : Unpacker α}
    (h : Restores levels packValue unpackValue) :
    Restores (packedLevels levels) (pack packValue) (unpack unpackValue) := fun m room => by
  have nonempty := listLevels_pos (levels ·.2) m.entries
  have levels : max 1 (listLevels (levels ·.2) m.entries) = listLevels (levels ·.2) m.entries := by
    omega
  rw [pack, asRead_struct]
  refine struct?_struct (by rfl) (by decide) (fun room => ?_) room
  simp [requiredField, strings?_ofList, h.entries? m.entries, levels]

end StoredMap

/-! ### Changing what is unpacked -/

theorem MessagePack.struct?_map {α β : Type} (f : α → β) {names : List String}
    {build : Nat → List (Option MessagePack) → Option α}
    {build' : Nat → List (Option MessagePack) → Option β}
    (h : ∀ room fields, build' room fields = (build room fields).map f) (room : Nat)
    (v : MessagePack) : struct? names build' room v = (struct? names build room v).map f := by
  cases room with
  | zero => rfl
  | succ room =>
    rw [struct?, struct?, funext (h room)]
    cases fields? names room v <;> rfl

/-- Changing what is unpacked of a value is changing what is unpacked of a field. -/
theorem MessagePack.requiredField_map {α β : Type} {f : α → β} {unpack : MessagePack → Option α}
    {unpack' : MessagePack → Option β} (h : ∀ v, unpack' v = (unpack v).map f)
    (field : Option MessagePack) :
    requiredField unpack' field = (requiredField unpack field).map f := by
  rw [funext h]
  cases field <;> rfl

theorem StoredMap.orderedMap?_eq_map {α : Type} (unpackValue : Unpacker α) (room : Nat)
    (v : MessagePack) : orderedMap? unpackValue room v = (unpack unpackValue room v).map toMap := by
  refine struct?_map toMap (fun room fields => ?_) room v
  match fields with
  | [] => rfl
  | [_] => rfl
  | _ :: _ :: _ :: _ => rfl
  | [order, entries] =>
    simp only [requiredField_map (nameMap?_eq_map room) entries]
    cases requiredField (strings? room) order with
    | none => rfl
    | some => cases requiredField (entries? unpackValue room) entries <;> rfl

/-! ### Stored catalogs -/

/-- What is stored of a catalog. -/
structure Snapshot where
  types : StoredMap TypeDeclaration
  enums : StoredMap Enumeration
  cyclic : List String
  overrides : List (String × List (String × String))

namespace Snapshot

/-- The packed snapshot. -/
def pack (s : Snapshot) : MessagePack :=
  struct
    [("types", s.types.pack TypeDeclaration.pack), ("enums", s.enums.pack Enumeration.pack),
      ("cyclic", ofList ofString s.cyclic),
      ("overrides", ofEntries (ofEntries ofString) s.overrides)]

/-- The snapshot that a value is. -/
def unpack : Unpacker Snapshot :=
  struct? ["types", "enums", "cyclic", "overrides"] fun
    | room, [types, enums, cyclic, overrides] => do
      some ⟨← requiredField (StoredMap.unpack TypeDeclaration.unpack room) types,
        ← requiredField (StoredMap.unpack Enumeration.unpack room) enums,
        ← requiredField (strings? room) cyclic,
        ← requiredField (entries? (entries? fun _ => string?) room) overrides⟩
    | _, _ => none

/-- The catalog that is stored; of entries with the same name the last one counts. -/
def catalog (s : Snapshot) : Catalog :=
  ⟨s.types.toMap, s.enums.toMap, .ofNames s.cyclic,
    .ofList (s.overrides.map fun e => (e.1, .ofList e.2))⟩

/-- How many levels a packed snapshot nests. -/
def packedLevels (s : Snapshot) : Nat :=
  max (s.types.packedLevels TypeDeclaration.packedLevels)
    (s.enums.packedLevels Enumeration.packedLevels) + 1

theorem restores : Restores packedLevels pack unpack := fun s room => by
  have types := StoredMap.restores TypeDeclaration.restores s.types
  have enums := StoredMap.restores Enumeration.restores s.enums
  have overrides := restores_string.entries?.entries? s.overrides
  -- Overrides are only two maps deep.
  have shallow : listLevels (fun e : String × List (String × String) =>
      listLevels (fun _ => 0) e.2) s.overrides ≤ 2 :=
    listLevels_le fun e _ => listLevels_le fun _ _ => Nat.le_refl 0
  have levels : max (s.types.packedLevels TypeDeclaration.packedLevels)
        (max (s.enums.packedLevels Enumeration.packedLevels) (max 1
          (listLevels (fun e => listLevels (fun _ => 0) e.2) s.overrides))) + 1 =
      s.packedLevels := by
    have deeper : 2 ≤ s.types.packedLevels TypeDeclaration.packedLevels :=
      Nat.succ_le_succ (listLevels_pos _ _)
    unfold packedLevels
    omega
  rw [pack, asRead_struct, ← levels]
  refine struct?_struct (by rfl) (by decide) (fun room => ?_) room
  simp [requiredField, types, enums, strings?_ofList, overrides]

/-- The snapshot at the start of bytes. -/
def read? (bytes : List UInt8) : Option Snapshot :=
  (MessagePack.read bytes).bind fun (v, _) => unpack Catalog.snapshotDepth v

/-- The bytes of a snapshot. -/
def bytes (s : Snapshot) : List UInt8 := s.pack.bytes

end Snapshot

/-- The maps of ancestors are the ones of their entries, in a map that is the one of its entries. -/
theorem MessagePack.overrides?_eq_map (room : Nat) (v : MessagePack) :
    nameMap? (nameMap? fun _ => string?) room v =
      (entries? (entries? fun _ => string?) room v).map fun es =>
        NameMap.ofList (es.map fun e => (e.1, NameMap.ofList e.2)) := by
  have inner : (nameMap? fun _ => string?) =
      fun room v => (entries? (fun _ => string?) room v).map NameMap.ofList :=
    funext fun room => funext fun v => nameMap?_eq_map room v
  rw [nameMap?_eq_map, inner, entries?_map, Option.map_map]
  rfl

theorem Catalog.unpack_eq_map (room : Nat) (v : MessagePack) :
    unpack room v = (Snapshot.unpack room v).map Snapshot.catalog := by
  refine struct?_map Snapshot.catalog (fun room fields => ?_) room v
  match fields with
  | [] => rfl
  | [_] => rfl
  | [_, _] => rfl
  | [_, _, _] => rfl
  | _ :: _ :: _ :: _ :: _ :: _ => rfl
  | [types, enums, cyclic, overrides] =>
    simp only [requiredField_map (StoredMap.orderedMap?_eq_map _ room) types,
      requiredField_map (StoredMap.orderedMap?_eq_map _ room) enums,
      requiredField_map (fun _ => rfl : ∀ v, nameSet? room v = (strings? room v).map _) cyclic,
      requiredField_map (overrides?_eq_map room) overrides]
    cases requiredField (StoredMap.unpack TypeDeclaration.unpack room) types with
    | none => rfl
    | some =>
      cases requiredField (StoredMap.unpack Enumeration.unpack room) enums with
      | none => rfl
      | some =>
        cases requiredField (strings? room) cyclic with
        | none => rfl
        | some => cases requiredField (entries? (entries? fun _ => string?) room) overrides <;> rfl

theorem Catalog.ofSnapshot?_eq_map (bytes : List UInt8) :
    ofSnapshot? bytes = (Snapshot.read? bytes).map Snapshot.catalog := by
  rw [ofSnapshot?, Snapshot.read?, Option.map_bind]
  exact congrArg ((MessagePack.read bytes).bind) (funext fun (v, _) => unpack_eq_map _ v)

end ApiCatalog
