/-!
# Finite maps from names

A map is the list of its entries in ascending order of their names, each name once. The order
is part of the type, so that two maps are equal exactly if every name has the same value in
both.

Main statements:

* `NameMap.get?_insert` and `NameMap.get?_erase` say what an update does to each name;
* `NameMap.ext_get?`, maps that answer alike are equal.
-/

namespace ApiCatalog

/-- A finite map from names. -/
structure NameMap (α : Type) where
  entries : List (String × α)
  sorted : entries.Pairwise (fun a b => a.1 < b.1)
  deriving DecidableEq

namespace NameMap

variable {α : Type}

/-- The map without entries. -/
def empty : NameMap α := ⟨[], .nil⟩

instance : EmptyCollection (NameMap α) := ⟨empty⟩
instance : Inhabited (NameMap α) := ⟨empty⟩

/-- The value of the first entry with the name. -/
def find (name : String) : List (String × α) → Option α
  | [] => none
  | e :: es => if name = e.1 then some e.2 else find name es

/-- The value of a name. -/
def get? (m : NameMap α) (name : String) : Option α := find name m.entries

/-- Whether the name has a value. -/
def contains (m : NameMap α) (name : String) : Bool := (m.get? name).isSome

/-- The names in ascending order. -/
def names (m : NameMap α) : List String := m.entries.map (·.1)

/-- The number of names. -/
def size (m : NameMap α) : Nat := m.entries.length

/-! ### Updates -/

/-- Puts an entry in its place among ascending entries, in place of one of the same name. -/
def insertEntry (name : String) (value : α) : List (String × α) → List (String × α)
  | [] => [(name, value)]
  | e :: es =>
    if name < e.1 then (name, value) :: e :: es
    else if e.1 < name then e :: insertEntry name value es
    else (name, value) :: es

theorem fst_of_mem_insertEntry {name : String} {value : α} {es : List (String × α)}
    {x : String × α} (h : x ∈ insertEntry name value es) : x = (name, value) ∨ x ∈ es := by
  induction es with
  | nil => simpa [insertEntry] using h
  | cons e es ih =>
    simp only [insertEntry] at h
    split at h
    · simpa using h
    · split at h
      · rcases List.mem_cons.1 h with rfl | h
        · simp
        · rcases ih h with h | h <;> simp [h]
      · rcases List.mem_cons.1 h with rfl | h <;> simp_all

theorem insertEntry_sorted (name : String) (value : α) {es : List (String × α)}
    (h : es.Pairwise (fun a b => a.1 < b.1)) :
    (insertEntry name value es).Pairwise (fun a b => a.1 < b.1) := by
  induction es with
  | nil => simp [insertEntry]
  | cons e es ih =>
    obtain ⟨first, rest⟩ := List.pairwise_cons.1 h
    simp only [insertEntry]
    split <;> rename_i low
    · refine List.pairwise_cons.2 ⟨fun x hx => ?_, h⟩
      rcases List.mem_cons.1 hx with rfl | hx
      · exact low
      · exact String.lt_trans low (first x hx)
    · split <;> rename_i high
      · refine List.pairwise_cons.2 ⟨fun x hx => ?_, ih rest⟩
        rcases fst_of_mem_insertEntry hx with rfl | hx
        · exact high
        · exact first x hx
      · have same : e.1 = name :=
          String.le_antisymm (String.not_lt.1 low) (String.not_lt.1 high)
        exact List.pairwise_cons.2 ⟨fun x hx => same ▸ first x hx, rest⟩

/-- The map with the name set to the value. -/
def insert (m : NameMap α) (name : String) (value : α) : NameMap α :=
  ⟨insertEntry name value m.entries, insertEntry_sorted name value m.sorted⟩

/-- The map without the name. -/
def erase (m : NameMap α) (name : String) : NameMap α :=
  ⟨m.entries.filter (·.1 ≠ name), m.sorted.filter _⟩

/-- The map of a list of entries; of entries with the same name the last one counts. -/
def ofList (entries : List (String × α)) : NameMap α :=
  entries.foldl (fun m e => m.insert e.1 e.2) empty

/-! ### What an update does to each name -/

@[simp] theorem get?_empty (name : String) : (empty : NameMap α).get? name = none := rfl

theorem find_insertEntry (name other : String) (value : α) (es : List (String × α)) :
    find other (insertEntry name value es) =
      if other = name then some value else find other es := by
  induction es with
  | nil => simp [insertEntry, find]
  | cons e es ih =>
    simp only [insertEntry]
    split <;> rename_i low
    · simp [find]
    · split <;> rename_i high
      · by_cases same : other = e.1
        · have : other ≠ name := by
            rintro rfl
            exact String.lt_irrefl _ (same ▸ high)
          simp [find, same, same ▸ this]
        · simp [find, same, ih]
      · have same : e.1 = name :=
          String.le_antisymm (String.not_lt.1 low) (String.not_lt.1 high)
        by_cases h : other = name <;> simp [find, h, same]

theorem get?_insert (m : NameMap α) (name other : String) (value : α) :
    (m.insert name value).get? other = if other = name then some value else m.get? other :=
  find_insertEntry name other value m.entries

theorem get?_erase (m : NameMap α) (name other : String) :
    (m.erase name).get? other = if other = name then none else m.get? other := by
  simp only [get?, erase]
  generalize m.entries = es
  induction es with
  | nil => simp [find]
  | cons e es ih =>
    by_cases gone : e.1 = name
    · by_cases h : other = name
      · simpa [List.filter_cons, gone, h] using ih
      · simpa [List.filter_cons, gone, h, find] using ih
    · by_cases same : other = e.1
      · simp [find, gone, same]
      · simpa [List.filter_cons, gone, find, same] using ih

/-- A name has a value exactly if it is listed. -/
theorem contains_iff_mem_names {m : NameMap α} {name : String} :
    m.contains name ↔ name ∈ m.names := by
  simp only [contains, get?, names]
  generalize m.entries = es
  induction es with
  | nil => simp [find]
  | cons e es ih => by_cases same : name = e.1 <;> simp_all [find]

theorem get?_eq_some_iff {m : NameMap α} {name : String} {value : α} :
    m.get? name = some value ↔ (name, value) ∈ m.entries := by
  obtain ⟨es, sorted⟩ := m
  simp only [get?]
  induction es with
  | nil => simp [find]
  | cons e es ih =>
    obtain ⟨first, rest⟩ := List.pairwise_cons.1 sorted
    by_cases same : name = e.1
    · have absent : (name, value) ∉ es := fun h =>
        String.lt_irrefl _ (same ▸ first _ h)
      simp only [find, same, if_true, Option.some.injEq, List.mem_cons]
      constructor
      · rintro rfl
        exact .inl rfl
      · rintro (h | h)
        · exact (congrArg Prod.snd h).symm
        · exact absurd (same ▸ h) absent
    · simp only [find, same, if_false, ih rest, List.mem_cons]
      constructor
      · exact .inr
      · rintro (h | h)
        · exact absurd (congrArg Prod.fst h) same
        · exact h

/-- Ascending lists with the same members are equal. -/
theorem sorted_ext {xs ys : List (String × α)} (hx : xs.Pairwise (fun a b => a.1 < b.1))
    (hy : ys.Pairwise (fun a b => a.1 < b.1)) (h : ∀ e, e ∈ xs ↔ e ∈ ys) : xs = ys := by
  induction xs generalizing ys with
  | nil =>
    cases ys with
    | nil => rfl
    | cons y ys => exact absurd ((h y).2 (by simp)) (by simp)
  | cons x xs ih =>
    cases ys with
    | nil => exact absurd ((h x).1 (by simp)) (by simp)
    | cons y ys =>
      obtain ⟨xFirst, xRest⟩ := List.pairwise_cons.1 hx
      obtain ⟨yFirst, yRest⟩ := List.pairwise_cons.1 hy
      have same : x = y := by
        rcases List.mem_cons.1 ((h x).1 (by simp)) with rfl | hxy
        · rfl
        · rcases List.mem_cons.1 ((h y).2 (by simp)) with rfl | hyx
          · rfl
          · exact absurd (String.lt_trans (yFirst x hxy) (xFirst y hyx)) (String.lt_irrefl _)
      subst same
      congr 1
      refine ih xRest yRest fun e => ?_
      have := h e
      simp only [List.mem_cons] at this
      constructor
      · intro he
        rcases this.1 (.inr he) with rfl | h
        · exact absurd (xFirst _ he) (String.lt_irrefl _)
        · exact h
      · intro he
        rcases this.2 (.inr he) with rfl | h
        · exact absurd (yFirst _ he) (String.lt_irrefl _)
        · exact h

/-- Maps that answer alike are equal. -/
theorem ext_get? {m n : NameMap α} (h : ∀ name, m.get? name = n.get? name) : m = n := by
  have entries : m.entries = n.entries :=
    sorted_ext m.sorted n.sorted fun (name, value) => by
      rw [← get?_eq_some_iff, ← get?_eq_some_iff, h]
  cases m
  cases n
  simpa using entries

end NameMap

/-! ### Sets of names -/

/-- A finite set of names. -/
abbrev NameSet := NameMap Unit

/-- The set of the names in a list. -/
def NameSet.ofNames (names : List String) : NameSet :=
  NameMap.ofList (names.map fun name => (name, ()))

end ApiCatalog
