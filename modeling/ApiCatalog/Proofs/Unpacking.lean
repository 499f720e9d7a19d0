import ApiCatalog.Snapshot.Decode
import ApiCatalog.Proofs.WrittenValues

/-!
# Packed values are unpacked again

What was packed of a value and read again is unpacked as that value if the unpacker may enter the
levels that it nests, and as nothing if it may not. For each way to pack there is one statement of
that kind: about strings, lists, entries of maps, variants and structures whose fields have
different names.

Main statements: `Restores.list?`, `Restores.entries?`, `unit?_ofString`, `struct?_struct`.
-/

namespace ApiCatalog

open scoped CorePowers

namespace MessagePack

/-! ### Values within room -/

/-- A value that nests so many levels, if there is room for them. -/
def within {α : Type} (levels room : Nat) (x : α) : Option α :=
  if levels ≤ room then some x else none

section Within

variable {α β : Type} {levels more room : Nat} {x : α}

theorem within_eq_some (h : levels ≤ room) : within levels room x = some x := if_pos h

@[simp] theorem within_zero_levels : within 0 room x = some x := within_eq_some (Nat.zero_le _)

@[simp] theorem map_within (f : α → β) :
    (within levels room x).map f = within levels room (f x) := by
  unfold within
  split <;> rfl

@[simp] theorem bind_within_some (f : α → β) :
    ((within levels room x).bind fun x => some (f x)) = within levels room (f x) := by
  unfold within
  split <;> rfl

@[simp] theorem bind_within_within (f : α → β) :
    ((within levels room x).bind fun x => within more room (f x)) =
      within (max levels more) room (f x) := by
  unfold within
  by_cases h : levels ≤ room
  · simp only [h, if_true, Option.bind_some, Nat.max_le, true_and]
  · simp only [h, if_false, Option.bind_none, Nat.max_le, false_and]

theorem within_succ : within (levels + 1) (room + 1) x = within levels room x := by
  simp [within]

end Within

/-! ### Entries and levels of containers -/

/-- The map of entries in the given order, whether or not their names are different. -/
def ofEntries {α : Type} (pack : α → MessagePack) (entries : List (String × α)) : MessagePack :=
  .map (entries.map fun e => (ofString e.1, pack e.2))

/-- The entries of a map from names, in the order in which they stand. -/
def entries? {α : Type} (unpack : Unpacker α) : Unpacker (List (String × α))
  | room + 1, .map entries =>
    entries.mapM fun (key, value) => do some (← string? key, ← unpack room value)
  | _, _ => none

/-- The levels of a list: one for itself around those of its items. -/
def listLevels {α : Type} (levels : α → Nat) (items : List α) : Nat :=
  (items.map levels).foldr max 0 + 1

theorem listLevels_pos {α : Type} (levels : α → Nat) (items : List α) :
    0 < listLevels levels items := Nat.succ_pos _

theorem listLevels_le {α : Type} {levels : α → Nat} {items : List α} {n : Nat}
    (h : ∀ x ∈ items, levels x ≤ n) : listLevels levels items ≤ n + 1 := by
  refine Nat.succ_le_succ ?_
  induction items with
  | nil => exact Nat.zero_le n
  | cons x xs ih =>
    rw [List.forall_mem_cons] at h
    exact Nat.max_le.2 ⟨h.1, ih h.2⟩

theorem listLevels_of_perm {α : Type} {levels : α → Nat} {items items' : List α}
    (h : items.Perm items') : listLevels levels items = listLevels levels items' := by
  have same := (h.map levels).foldr_eq' (fun x _ y _ n => Nat.max_left_comm y x n) 0
  rw [listLevels, listLevels, same]

/-- The levels of what may be missing. -/
def optionLevels {α : Type} (levels : α → Nat) (x : Option α) : Nat := x.elim 0 levels

/-- Whether an unpacker makes of a packed value that value again, if there is room for its
levels, and nothing otherwise. -/
def Restores {α : Type} (levels : α → Nat) (pack : α → MessagePack) (unpack : Unpacker α) : Prop :=
  ∀ x room, unpack room (pack x).asRead = within (levels x) room x

/-! ### Packed values as they are read -/

theorem asReadAll_eq_map (vs : List MessagePack) : asReadAll vs = vs.map asRead := by
  induction vs with
  | nil => rfl
  | cons v vs ih => simp [asReadAll, ih]

theorem asReadEntries_eq_map (es : List (MessagePack × MessagePack)) :
    asReadEntries es = es.map (Prod.map asRead asRead) := by
  induction es with
  | nil => rfl
  | cons e es ih => rw [asReadEntries, ih, List.map_cons, Prod.map]

@[simp] theorem asRead_ofString (s : String) : (ofString s).asRead = ofString s := rfl

@[simp] theorem asRead_bool (b : Bool) : (bool b).asRead = bool b := rfl

@[simp] theorem asRead_variant (tag : String) (data : MessagePack) :
    (variant tag data).asRead = variant tag data.asRead := rfl

@[simp] theorem asRead_struct (fields : List (String × MessagePack)) :
    (struct fields).asRead = struct (fields.map fun e => (e.1, e.2.asRead)) := by
  simp [struct, asRead, asReadEntries_eq_map, Prod.map]

@[simp] theorem asRead_array (items : List MessagePack) :
    (array items).asRead = array (asReadAll items) := rfl

theorem asRead_ofList {α : Type} (pack : α → MessagePack) (items : List α) :
    (ofList pack items).asRead = .array (items.map fun x => (pack x).asRead) := by
  simp [ofList, asReadAll_eq_map]

theorem asRead_ofEntries {α : Type} (pack : α → MessagePack) (entries : List (String × α)) :
    (ofEntries pack entries).asRead =
      .map (entries.map fun e => (ofString e.1, (pack e.2).asRead)) := by
  simp [ofEntries, asRead, asReadEntries_eq_map, Prod.map]

/-! ### Levels of packed values -/

@[simp] theorem depth_ofString (s : String) : (ofString s).depth = 0 := rfl

@[simp] theorem depth_array (items : List MessagePack) :
    (array items).depth = depthOfAll items + 1 := rfl

@[simp] theorem depth_struct (fields : List (String × MessagePack)) :
    (struct fields).depth = depthOfAll (fields.map (·.2)) + 1 := by
  have entries : depthOfEntries (fields.map fun e => (ofString e.1, e.2)) =
      depthOfAll (fields.map (·.2)) := by
    induction fields with
    | nil => rfl
    | cons e fields ih => simp [depthOfEntries, depthOfAll, ih]
  simp [struct, depth, entries]

@[simp] theorem depth_variant (tag : String) (data : MessagePack) :
    (variant tag data).depth = data.depth + 1 := by
  simp [variant, depth, depthOfEntries]

/-! ### What the format can hold of packed values -/

section Fits

variable {α : Type} {pack : α → MessagePack}

theorem fits_ofList {items : List α} :
    (ofList pack items).fits = true ↔
      items.length < 2 ^ (32 : Nat) ∧ ∀ x ∈ items, (pack x).fits = true := by
  simp [ofList, fits, fitsAll_iff]

theorem fits_ofEntries {entries : List (String × α)} :
    (ofEntries pack entries).fits = true ↔ entries.length < 2 ^ (32 : Nat) ∧
      ∀ e ∈ entries, (ofString e.1).fits = true ∧ (pack e.2).fits = true := by
  rw [ofEntries, fits, Bool.and_eq_true, decide_eq_true_eq, List.length_map, fitsEntries_iff,
    List.forall_mem_map]

theorem fits_struct {fields : List (String × MessagePack)} :
    (struct fields).fits = true ↔ fields.length < 2 ^ (32 : Nat) ∧
      ∀ e ∈ fields, (ofString e.1).fits = true ∧ e.2.fits = true := by
  rw [struct, fits, Bool.and_eq_true, decide_eq_true_eq, List.length_map, fitsEntries_iff,
    List.forall_mem_map]

/-- The order of entries and, within them, of other entries makes no difference. -/
theorem fits_ofEntries_of_perm {entries entries' : List (String × α)} (h : entries.Perm entries')
    (fits : (ofEntries pack entries').fits = true) : (ofEntries pack entries).fits = true := by
  rw [fits_ofEntries] at fits ⊢
  exact ⟨h.length_eq ▸ fits.1, fun e he => fits.2 e (h.mem_iff.1 he)⟩

end Fits

/-! ### Strings -/

@[simp] theorem string?_ofString (s : String) : string? (ofString s) = some s := by
  have valid : (⟨s.toByteArray.data.toList.toArray⟩ : ByteArray).IsValidUTF8 := s.isValidUTF8
  exact dif_pos valid

theorem toByteArray_toList_inj {s t : String} :
    s.toByteArray.data.toList = t.toByteArray.data.toList ↔ s = t := by
  rw [← String.toByteArray_inj, ByteArray.ext_iff, Array.toList_inj]

theorem index?_ofString (names : List String) (s : String) :
    index? names (ofString s) = some (names.findIdx? (· == s)) := by
  refine congrArg (fun p => some (names.findIdx? p)) (funext fun name => ?_)
  by_cases same : name = s
  · simp [same]
  · rw [beq_eq_false_iff_ne.2 same, beq_eq_false_iff_ne]
    exact mt toByteArray_toList_inj.1 same

/-! ### Lists -/

section Lists

variable {α β : Type} {levels : α → Nat} {pack : α → MessagePack} {unpack : Unpacker α} {room : Nat}

/-- What is unpacked of each item is unpacked of all, within the levels of the deepest. -/
theorem mapM_within (levels : α → Nat) {packed : α → β} {unpack : β → Option α} {items : List α}
    (h : ∀ x ∈ items, unpack (packed x) = within (levels x) room x) :
    (items.map packed).mapM unpack = within ((items.map levels).foldr max 0) room items := by
  induction items with
  | nil => simp
  | cons x xs ih =>
    rw [List.forall_mem_cons] at h
    simp [List.mapM_cons, h.1, ih h.2]

theorem list?_array {items : List MessagePack} {n : Nat} {xs : List α}
    (h : ∀ room, items.mapM (unpack room) = within n room xs) (room : Nat) :
    list? unpack room (.array items) = within (n + 1) room xs := by
  cases room with
  | zero => rfl
  | succ room => exact (h room).trans within_succ.symm

theorem Restores.list? (h : Restores levels pack unpack) :
    Restores (listLevels levels) (ofList pack) (list? unpack) := by
  intro items room
  rw [asRead_ofList]
  exact list?_array (fun room => mapM_within levels fun x _ => h x room) room

theorem restores_string : Restores (fun _ => 0) ofString fun _ => string? := by
  intro s room
  simp

theorem strings?_ofList (names : List String) (room : Nat) :
    strings? room (ofList ofString names).asRead = within 1 room names := by
  have levels : listLevels (fun _ : String => 0) names = 1 :=
    Nat.le_antisymm (listLevels_le fun _ _ => Nat.le_refl 0) (listLevels_pos _ _)
  rw [strings?, restores_string.list?, levels]

theorem Restores.entries? (h : Restores levels pack unpack) :
    Restores (listLevels (levels ·.2)) (ofEntries pack) (entries? unpack) := by
  intro entries room
  rw [asRead_ofEntries]
  cases room with
  | zero => rfl
  | succ room =>
    exact (mapM_within (levels ·.2) fun e _ => by simp [h e.2]).trans within_succ.symm

/-- Changing each result is changing all results. -/
theorem mapM_map_eq_map_mapM {γ : Type} (f : β → γ) (unpack : α → Option β) (items : List α) :
    (items.mapM fun x => (unpack x).map f) = (items.mapM unpack).map (List.map f) := by
  induction items with
  | nil => rfl
  | cons x xs ih =>
    rw [List.mapM_cons, List.mapM_cons, ih]
    cases unpack x with
    | none => rfl
    | some y => cases xs.mapM unpack <;> rfl

/-- The map from names is the one of its entries. -/
theorem nameMap?_eq_map (room : Nat) (v : MessagePack) :
    nameMap? unpack room v = (entries? unpack room v).map NameMap.ofList := by
  cases room with
  | zero => cases v <;> rfl
  | succ room => cases v <;> rfl

/-- Changing each value is changing the values of all entries. -/
theorem entries?_map (f : α → β) (room : Nat) (v : MessagePack) :
    entries? (fun room v => (unpack room v).map f) room v =
      (entries? unpack room v).map (List.map fun e => (e.1, f e.2)) := by
  cases room with
  | zero => cases v <;> rfl
  | succ room =>
    cases v with
    | map entries =>
      refine Eq.trans (congrArg (entries.mapM ·) (funext fun e => ?_))
        (mapM_map_eq_map_mapM _ _ entries)
      cases name : string? e.1 with
      | none => simp [name]
      | some => cases value : unpack room e.2 <;> simp [name, value]
    | _ => rfl

end Lists

/-! ### Fields that may be missing -/

theorem optionalField_ofOption {α : Type} {levels : α → Nat} {pack : α → MessagePack}
    {unpack : Unpacker α} (h : Restores levels pack unpack) (some_ne : ∀ x, (pack x).asRead ≠ .nil)
    (x : Option α) (room : Nat) :
    optionalField (unpack room) (some (ofOption pack x).asRead) =
      within (optionLevels levels x) room x := by
  cases x with
  | none => simp [ofOption, optionLevels, optionalField, asRead]
  | some x =>
    have unpacked : optionalField (unpack room) (some (pack x).asRead) =
        (unpack room (pack x).asRead).map some := by
      unfold optionalField
      split
      · contradiction
      · rename_i isNil
        exact absurd (Option.some.inj isNil) (some_ne x)
      · rename_i v _ hv
        rw [Option.some.inj hv]
    rw [ofOption, unpacked, h, map_within]
    rfl

/-! ### Structures and variants -/

section Struct

variable {name : String} {v : MessagePack}
  {before after fields : List (String × MessagePack)} {room : Nat}

/-- A name that comes only once is found behind the names before it. -/
theorem findIdx?_of_nodup {before after : List String}
    (distinct : (before ++ name :: after).Nodup) :
    (before ++ name :: after).findIdx? (· == name) = some before.length := by
  have absent : before.findIdx? (· == name) = none :=
    List.findIdx?_eq_none_iff.2 fun other hother => beq_eq_false_iff_ne.2 fun same =>
      (List.nodup_append.1 distinct).2.2 other hother name (by simp) same
  simp [List.findIdx?_append, absent, List.findIdx?_cons]

/-- The fields that come before an entry are there, those from it on are not. -/
theorem addField_struct (distinct : (before.map (·.1) ++ name :: after.map (·.1)).Nodup) :
    addField (before.map (·.1) ++ name :: after.map (·.1)) room
        (before.map (some ·.2) ++ none :: after.map fun _ => none) (ofString name, v) =
      some (before.map (some ·.2) ++ some v :: after.map fun _ => none) := by
  rw [addField, index?_ofString, findIdx?_of_nodup distinct]
  simp

theorem foldlM_addField_struct (before : List (String × MessagePack)) (room : Nat)
    (distinct : (before.map (·.1) ++ fields.map (·.1)).Nodup) :
    (fields.map fun e => (ofString e.1, e.2)).foldlM
        (addField (before.map (·.1) ++ fields.map (·.1)) room)
        (before.map (some ·.2) ++ fields.map fun _ => none) =
      some ((before ++ fields).map (some ·.2)) := by
  induction fields generalizing before with
  | nil => simp
  | cons e fields ih =>
    have others := ih (before ++ [e]) (by simpa using distinct)
    simp only [List.map_cons, List.foldlM_cons]
    rw [addField_struct (by simpa using distinct)]
    simpa using others

theorem fields?_struct (distinct : (fields.map (·.1)).Nodup) :
    fields? (fields.map (·.1)) room (struct fields) = some (fields.map (some ·.2)) := by
  have all := foldlM_addField_struct [] room (by simpa using distinct)
  simpa [fields?, struct, Function.comp_def] using all

end Struct

theorem struct?_struct {α : Type} {names : List String} {fields : List (String × MessagePack)}
    {levels : Nat} {build : Nat → List (Option MessagePack) → Option α} {x : α}
    (hnames : fields.map (·.1) = names) (distinct : names.Nodup)
    (h : ∀ room, build room (fields.map (some ·.2)) = within levels room x) (room : Nat) :
    struct? names build room (struct fields) = within (levels + 1) room x := by
  subst hnames
  cases room with
  | zero => rfl
  | succ room =>
    rw [struct?, fields?_struct distinct, Option.bind_some, h, within_succ]

theorem variant?_variant (tags : List String) (tag : String) (data : MessagePack) :
    variant? tags (variant tag data) = (tags.findIdx? (· == tag)).map fun i => (i, some data) := by
  show ((index? tags (ofString tag)).join.map fun i => (i, some data)) = _
  rw [index?_ofString]
  rfl

theorem variant?_ofString (tags : List String) (tag : String) :
    variant? tags (ofString tag) = (tags.findIdx? (· == tag)).map fun i => (i, none) := by
  show ((index? tags (ofString tag)).join.map fun i => (i, none)) = _
  rw [index?_ofString]
  rfl

theorem unit?_ofString {α : Type} {all : List α} {tag : α → String} {x : α} (hx : x ∈ all)
    (distinct : (all.map tag).Nodup) : unit? all tag (ofString (tag x)) = some x := by
  obtain ⟨before, after, rfl⟩ := List.append_of_mem hx
  rw [List.map_append, List.map_cons] at distinct
  rw [unit?, variant?_ofString, List.map_append, List.map_cons, findIdx?_of_nodup distinct]
  simp

end MessagePack

end ApiCatalog
