import ApiCatalog.OrderedMap

/-!
# Consistent ordered maps

An ordered map is consistent if its order lists the names that have a value, each once. Every
operation keeps that, and a consistent map is determined by its entries in order.

Main statements: `OrderedMap.IsConsistent.insert` and its like for the other operations;
`OrderedMap.ofList_toList`, inserting the entries of a map in order makes the map again.
-/

namespace ApiCatalog.OrderedMap

variable {α : Type} {m n : OrderedMap α} {name other : String} {value : α}

/-- Whether the order lists exactly the names with a value, each of them once. -/
structure IsConsistent (m : OrderedMap α) : Prop where
  nodup : m.order.Nodup
  mem_iff : ∀ name, name ∈ m.order ↔ m.contains name = true

/-- Whether every value stands under the name that it says is its own. -/
def IsKeyed (nameOf : α → String) (m : OrderedMap α) : Prop :=
  ∀ name value, m.get? name = some value → nameOf value = name

/-! ### What each operation does -/

theorem contains_eq_isSome : m.contains name = (m.get? name).isSome := rfl

theorem contains_of_get? (h : m.get? name = some value) : m.contains name = true := by
  rw [contains_eq_isSome, h]
  rfl

theorem get?_of_not_contains (h : m.contains name = false) : m.get? name = none := by
  rw [contains_eq_isSome] at h
  simpa using h

theorem get?_modify (m : OrderedMap α) (name other : String) (f : α → α) :
    (m.modify name f).get? other =
      if other = name then (m.get? name).map f else m.get? other := by
  unfold modify
  split
  · rename_i absent
    split
    · rename_i same
      rw [same, absent]
      rfl
    · rfl
  · rename_i value present
    show (m.entries.insert name (f value)).get? other = _
    rw [NameMap.get?_insert, present]
    rfl

theorem contains_insert (m : OrderedMap α) (name other : String) (value : α) :
    (m.insert name value).contains other = (decide (other = name) || m.contains other) := by
  rw [contains_eq_isSome, get?_insert, contains_eq_isSome]
  split <;> simp_all

theorem contains_erase (m : OrderedMap α) (name other : String) :
    (m.erase name).contains other = (decide (other ≠ name) && m.contains other) := by
  rw [contains_eq_isSome, get?_erase, contains_eq_isSome]
  split <;> simp_all

theorem contains_modify (m : OrderedMap α) (name other : String) (f : α → α) :
    (m.modify name f).contains other = m.contains other := by
  rw [contains_eq_isSome, get?_modify, contains_eq_isSome]
  split <;> simp_all

/-- Maps with the same order and the same values are equal. -/
theorem ext_get? (order : m.order = n.order) (values : ∀ name, m.get? name = n.get? name) :
    m = n := by
  obtain ⟨o, es⟩ := m
  obtain ⟨o', es'⟩ := n
  obtain rfl : o = o' := order
  obtain rfl : es = es' := NameMap.ext_get? values
  rfl

/-! ### Consistency -/

namespace IsConsistent

theorem empty : (empty : OrderedMap α).IsConsistent := ⟨.nil, fun _ => by simp [OrderedMap.empty,
  contains, NameMap.contains]⟩

theorem insert (h : m.IsConsistent) (name : String) (value : α) :
    (m.insert name value).IsConsistent := by
  constructor
  · show (if m.contains name then m.order else m.order ++ [name]).Nodup
    split
    · exact h.nodup
    · rename_i absent
      rw [List.nodup_append]
      refine ⟨h.nodup, by simp, ?_⟩
      rintro a ha b hb rfl
      rw [List.mem_singleton.1 hb] at ha
      exact absent ((h.mem_iff name).1 ha)
  · intro other
    rw [contains_insert]
    show other ∈ (if m.contains name then m.order else m.order ++ [name]) ↔ _
    by_cases present : m.contains name
    · by_cases same : other = name
      · simp [present, same, h.mem_iff]
      · simp [present, same, h.mem_iff]
    · by_cases same : other = name
      · simp [present, same]
      · simp [present, same, h.mem_iff]

theorem erase (h : m.IsConsistent) (name : String) : (m.erase name).IsConsistent := by
  by_cases present : m.contains name
  · have order : (m.erase name).order = m.order.erase name := by
      rw [OrderedMap.erase, if_pos present]
    refine ⟨order ▸ h.nodup.erase name, fun other => ?_⟩
    rw [order, h.nodup.mem_erase_iff, h.mem_iff, contains_erase]
    simp
  · rw [OrderedMap.erase, if_neg present]
    exact h

/-- A name that is removed leaves the order of the others as it was. -/
theorem order_erase (h : m.IsConsistent) (name : String) :
    (m.erase name).order = m.order.filter (· ≠ name) := by
  rw [OrderedMap.erase]
  split
  · refine (h.nodup.erase_eq_filter name).trans (List.filter_congr fun other _ => ?_)
    by_cases same : other = name <;> simp [same]
  · rename_i absent
    refine (List.filter_eq_self.2 fun other hother => decide_eq_true ?_).symm
    rintro rfl
    exact absent ((h.mem_iff other).1 hother)

theorem modify (h : m.IsConsistent) (name : String) (f : α → α) :
    (m.modify name f).IsConsistent := by
  have order : (m.modify name f).order = m.order := keys_modify m name f
  refine ⟨order ▸ h.nodup, fun other => ?_⟩
  rw [order, h.mem_iff, contains_modify]

theorem foldl_insert {entries : List (String × α)} (h : m.IsConsistent) :
    (entries.foldl (fun m e => m.insert e.1 e.2) m).IsConsistent := by
  induction entries generalizing m with
  | nil => exact h
  | cons e es ih => exact ih (h.insert e.1 e.2)

theorem ofList (entries : List (String × α)) : (ofList entries).IsConsistent := foldl_insert empty

end IsConsistent

/-! ### Entries in order -/

theorem mem_toList : (name, value) ∈ m.toList ↔ name ∈ m.order ∧ m.get? name = some value := by
  simp only [toList, List.mem_filterMap, Option.map_eq_some_iff, Prod.mk.injEq]
  constructor
  · rintro ⟨n, hn, v, hv, rfl, rfl⟩
    exact ⟨hn, hv⟩
  · rintro ⟨hn, hv⟩
    exact ⟨name, hn, value, hv, rfl, rfl⟩

/-- The entries of a consistent map are its names with their values. -/
theorem IsConsistent.mem_toList_iff (h : m.IsConsistent) :
    (name, value) ∈ m.toList ↔ m.get? name = some value := by
  rw [mem_toList, h.mem_iff]
  exact and_iff_right_of_imp contains_of_get?

theorem mem_values : value ∈ m.values ↔ ∃ name ∈ m.order, m.get? name = some value := by
  simp [values, mem_toList]

theorem exists_get?_of_mem_values (h : value ∈ m.values) : ∃ name, m.get? name = some value := by
  obtain ⟨name, -, hname⟩ := mem_values.1 h
  exact ⟨name, hname⟩

section Perm

variable (hm : m.IsConsistent) (hn : n.IsConsistent) (values : ∀ name, m.get? name = n.get? name)
include hm hn values

/-- Consistent maps with the same values have the same names, in orders of their own. -/
theorem IsConsistent.perm_order : m.order.Perm n.order := by
  refine (List.perm_ext_iff_of_nodup hm.nodup hn.nodup).2 fun name => ?_
  rw [hm.mem_iff, hn.mem_iff, contains_eq_isSome, contains_eq_isSome, values]

theorem IsConsistent.perm_values : m.values.Perm n.values := by
  have entries : m.entries.get? = n.entries.get? := funext values
  rw [OrderedMap.values, OrderedMap.values, toList, toList, entries]
  exact ((hm.perm_order hn values).filterMap _).map _

end Perm

/-- Every name in the order of a consistent map has an entry, so that order is found again in
the entries. -/
theorem IsConsistent.map_fst_toList (h : m.IsConsistent) : m.toList.map (·.1) = m.order := by
  have all : ∀ name ∈ m.order, ∃ value, m.get? name = some value := fun name hname => by
    have present := (h.mem_iff name).1 hname
    rwa [contains_eq_isSome, Option.isSome_iff_exists] at present
  rw [toList]
  generalize m.order = names at all
  induction names with
  | nil => rfl
  | cons name names ih =>
    rw [List.forall_mem_cons] at all
    obtain ⟨value, hvalue⟩ := all.1
    have hvalue : m.entries.get? name = some value := hvalue
    simp [hvalue, ih all.2]

/-- Entries with new and different names are kept in order and as they are. -/
theorem foldl_insert_of_nodup {entries : List (String × α)} (distinct : (entries.map (·.1)).Nodup)
    (new : ∀ e ∈ entries, m.contains e.1 = false) :
    (entries.foldl (fun m e => m.insert e.1 e.2) m).order = m.order ++ entries.map (·.1) ∧
      ∀ name, (entries.foldl (fun m e => m.insert e.1 e.2) m).get? name =
        ((entries.find? (·.1 = name)).map (·.2)).or (m.get? name) := by
  induction entries generalizing m with
  | nil => simp
  | cons e es ih =>
    obtain ⟨fresh, distinct⟩ := List.nodup_cons.1 distinct
    rw [List.forall_mem_cons] at new
    have new' : ∀ d ∈ es, (m.insert e.1 e.2).contains d.1 = false := fun d hd => by
      have : d.1 ≠ e.1 := fun same => fresh (List.mem_map.2 ⟨d, hd, same⟩)
      rw [contains_insert, new.2 d hd]
      simp [this]
    obtain ⟨order, values⟩ := ih distinct new'
    constructor
    · rw [List.foldl_cons, order]
      simp [insert, new.1]
    · intro name
      rw [List.foldl_cons, values, get?_insert, List.find?_cons]
      by_cases same : name = e.1
      · subst same
        have absent : es.find? (·.1 = e.1) = none := List.find?_eq_none.2 fun d hd h =>
          fresh (List.mem_map.2 ⟨d, hd, by simpa using h⟩)
        simp [absent]
      · simp [same, Ne.symm same]

/-- A consistent map is made of its entries. -/
theorem ofList_toList (h : m.IsConsistent) : ofList m.toList = m := by
  have names := h.map_fst_toList
  have distinct : (m.toList.map (·.1)).Nodup := names ▸ h.nodup
  obtain ⟨order, values⟩ := foldl_insert_of_nodup (m := empty) distinct fun _ _ => rfl
  refine ext_get? ?_ fun name => ?_
  · rw [ofList, order, names]
    rfl
  · rw [ofList, values, get?_empty, Option.or_none]
    cases found : m.toList.find? (·.1 = name) with
    | none =>
      rw [List.find?_eq_none] at found
      cases hvalue : m.get? name with
      | none => rfl
      | some value => exact absurd (found _ (h.mem_toList_iff.2 hvalue)) (by simp)
    | some e =>
      obtain ⟨n, value⟩ := e
      have same : n = name := by simpa using List.find?_some found
      have hvalue := h.mem_toList_iff.1 (List.mem_of_find?_eq_some found)
      rw [← same, hvalue]
      rfl

/-! ### Values that know their names -/

section IsKeyed

variable {nameOf : α → String}

theorem IsKeyed.insert (h : m.IsKeyed nameOf) (value : α) :
    (m.insert (nameOf value) value).IsKeyed nameOf := by
  intro name v hv
  rw [get?_insert] at hv
  split at hv
  · rename_i same
    cases hv
    exact same.symm
  · exact h name v hv

theorem IsKeyed.ofList (values : List α) :
    (ofList (values.map fun value => (nameOf value, value))).IsKeyed nameOf := by
  have all (m : OrderedMap α) (h : m.IsKeyed nameOf) :
      ((values.map fun value => (nameOf value, value)).foldl (fun m e => m.insert e.1 e.2)
        m).IsKeyed nameOf := by
    induction values generalizing m with
    | nil => exact h
    | cons value values ih => exact ih _ (h.insert value)
  exact all .empty fun _ _ h => by cases h

/-- The entries are what the values say. -/
theorem IsKeyed.toList_eq (h : m.IsKeyed nameOf) :
    m.toList = m.values.map fun value => (nameOf value, value) := by
  rw [values, List.map_map]
  refine (List.map_id _).symm.trans (List.map_congr_left fun e he => ?_)
  rw [Function.comp_apply, h e.1 e.2 (mem_toList.1 he).2]
  rfl

/-- The values of a consistent map have the names of its order. -/
theorem IsKeyed.map_values (h : m.IsKeyed nameOf) (hm : m.IsConsistent) :
    m.values.map nameOf = m.order := by
  rw [← hm.map_fst_toList, h.toList_eq, List.map_map]
  rfl

end IsKeyed

end ApiCatalog.OrderedMap
