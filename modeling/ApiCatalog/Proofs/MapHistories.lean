import Mathlib.Data.List.Forall2
import ApiCatalog.Proofs.OrderedMaps

/-!
# Histories of maps

Any number of maps are made, changed, copied and collected, one command after the other. Beside
them the same commands are carried out on lists of pairs, where a name that is there keeps its
place when its value is replaced, one that is not goes to the end, and one that is removed gives its
place up. What the ordered maps hold and tell is throughout what the lists hold and tell, and no
command reaches a map but the one it names.

Main definitions: `MapCommand`, `MapHistory.run`, `orderedMaps`, `pairLists`.
Main statement: `MapHistory.run_orderedMaps`.
-/

namespace ApiCatalog

/-! ### Lists of pairs -/

namespace PairList

variable {α : Type} {name : String} {es : List (String × α)}

/-- The pairs with the value in place of the one that the name has, or at the end. -/
def insert (name : String) (value : α) : List (String × α) → List (String × α)
  | [] => [(name, value)]
  | e :: es => if e.1 = name then (name, value) :: es else e :: insert name value es

/-- The pairs without the first of the name. -/
def erase (name : String) : List (String × α) → List (String × α)
  | [] => []
  | e :: es => if e.1 = name then es else e :: erase name es

/-- The pairs with the value of the first of the name changed. -/
def modify (name : String) (f : α → α) : List (String × α) → List (String × α)
  | [] => []
  | e :: es => if e.1 = name then (name, f e.2) :: es else e :: modify name f es

theorem insert_of_forall_ne (h : ∀ e ∈ es, e.1 ≠ name) (value : α) :
    insert name value es = es ++ [(name, value)] := by
  induction es with
  | nil => rfl
  | cons e es ih =>
    rw [List.forall_mem_cons] at h
    rw [insert, if_neg h.1, ih h.2, List.cons_append]

/-- Replacing a value is changing it. -/
theorem insert_of_exists (h : ∃ e ∈ es, e.1 = name) (value : α) :
    insert name value es = modify name (fun _ => value) es := by
  induction es with
  | nil => simp at h
  | cons e es ih =>
    rw [insert, modify]
    split
    · rfl
    · rename_i other
      obtain ⟨d, hd, same⟩ := h
      rcases List.mem_cons.1 hd with rfl | hd
      · exact absurd same other
      · rw [ih ⟨d, hd, same⟩]

theorem erase_of_forall_ne (h : ∀ e ∈ es, e.1 ≠ name) : erase name es = es := by
  induction es with
  | nil => rfl
  | cons e es ih =>
    rw [List.forall_mem_cons] at h
    rw [erase, if_neg h.1, ih h.2]

theorem modify_of_forall_ne (h : ∀ e ∈ es, e.1 ≠ name) (f : α → α) : modify name f es = es := by
  induction es with
  | nil => rfl
  | cons e es ih =>
    rw [List.forall_mem_cons] at h
    rw [modify, if_neg h.1, ih h.2]

/-! ### Pairs along names -/

/-- The names that have a value, with it. -/
def along (value? : String → Option α) (names : List String) : List (String × α) :=
  names.filterMap fun name => (value? name).map (name, ·)

variable {value? value?' : String → Option α} {names : List String}

theorem along_cons_none (h : value? name = none) :
    along value? (name :: names) = along value? names := by
  simp [along, h]

theorem along_cons_some {value : α} (h : value? name = some value) :
    along value? (name :: names) = (name, value) :: along value? names := by
  simp [along, h]

theorem along_append (value? : String → Option α) (names names' : List String) :
    along value? (names ++ names') = along value? names ++ along value? names' :=
  List.filterMap_append

theorem along_congr (h : ∀ n ∈ names, value? n = value?' n) :
    along value? names = along value?' names :=
  List.filterMap_congr fun n hn => by rw [h n hn]

theorem fst_of_mem_along {e : String × α} (h : e ∈ along value? names) : e.1 ∈ names := by
  obtain ⟨n, hn, h⟩ := List.mem_filterMap.1 h
  obtain ⟨_, _, rfl⟩ := Option.map_eq_some_iff.1 h
  exact hn

theorem ne_of_mem_along (h : name ∉ names) : ∀ e ∈ along value? names, e.1 ≠ name := by
  rintro e he rfl
  exact h (fst_of_mem_along he)

theorem find_along (name : String) :
    NameMap.find name (along value? names) = if name ∈ names then value? name else none := by
  induction names with
  | nil => rfl
  | cons n names ih =>
    cases h : value? n with
    | none =>
      rw [along_cons_none h, ih]
      by_cases same : name = n
      · simp [same, h]
      · simp [same]
    | some value =>
      rw [along_cons_some h, NameMap.find, ih]
      by_cases same : name = n
      · simp [same, h]
      · simp [same]

section Distinct

variable (distinct : names.Nodup)
include distinct

theorem modify_along (f : α → α) (changed : ∀ n, value?' n =
      if n = name then (value? name).map f else value? n) :
    modify name f (along value? names) = along value?' names := by
  induction names with
  | nil => rfl
  | cons n names ih =>
    obtain ⟨fresh, distinct⟩ := List.nodup_cons.1 distinct
    by_cases same : n = name
    · subst same
      have others : along value? names = along value?' names := along_congr fun other hother => by
        rw [changed, if_neg (ne_of_mem_of_not_mem hother fresh)]
      cases h : value? n with
      | none =>
        have h' : value?' n = none := by rw [changed, if_pos rfl, h, Option.map_none]
        rw [along_cons_none h, along_cons_none h', modify_of_forall_ne (ne_of_mem_along fresh),
          others]
      | some value =>
        have h' : value?' n = some (f value) := by rw [changed, if_pos rfl, h, Option.map_some]
        rw [along_cons_some h, along_cons_some h', modify, if_pos rfl, others]
    · have kept : value?' n = value? n := by rw [changed, if_neg same]
      cases h : value? n with
      | none => rw [along_cons_none h, along_cons_none (kept.trans h), ih distinct]
      | some value =>
        rw [along_cons_some h, along_cons_some (kept.trans h), modify, if_neg same, ih distinct]

theorem erase_along (changed : ∀ n ≠ name, value?' n = value? n) :
    erase name (along value? names) = along value?' (names.erase name) := by
  induction names with
  | nil => rfl
  | cons n names ih =>
    obtain ⟨fresh, distinct⟩ := List.nodup_cons.1 distinct
    by_cases same : n = name
    · subst same
      have others : along value? names = along value?' names := along_congr fun other hother => by
        rw [changed other (ne_of_mem_of_not_mem hother fresh)]
      rw [List.erase_cons_head, ← others]
      cases h : value? n with
      | none => rw [along_cons_none h, erase_of_forall_ne (ne_of_mem_along fresh)]
      | some value => rw [along_cons_some h, erase, if_pos rfl]
    · rw [List.erase_cons_tail (by simpa using same)]
      have kept : value?' n = value? n := changed n same
      cases h : value? n with
      | none => rw [along_cons_none h, along_cons_none (kept.trans h), ih distinct]
      | some value =>
        rw [along_cons_some h, along_cons_some (kept.trans h), erase, if_neg same, ih distinct]

end Distinct

end PairList

/-! ### What the operations do to the entries -/

namespace OrderedMap

variable {α : Type} {m n : OrderedMap α}

theorem toList_eq_along (m : OrderedMap α) : m.toList = PairList.along m.get? m.order := rfl

namespace IsConsistent

theorem find_toList (h : m.IsConsistent) (name : String) :
    NameMap.find name m.toList = m.get? name := by
  rw [toList_eq_along, PairList.find_along]
  split
  · rfl
  · rename_i absent
    rw [h.mem_iff, Bool.not_eq_true] at absent
    exact (get?_of_not_contains absent).symm

theorem toList_modify (h : m.IsConsistent) (name : String) (f : α → α) :
    (m.modify name f).toList = PairList.modify name f m.toList := by
  have order : (m.modify name f).order = m.order := keys_modify m name f
  rw [toList_eq_along, order, toList_eq_along]
  exact (PairList.modify_along h.nodup f fun other => get?_modify m name other f).symm

theorem toList_erase (h : m.IsConsistent) (name : String) :
    (m.erase name).toList = PairList.erase name m.toList := by
  have order : (m.erase name).order = m.order.erase name := by
    rw [h.order_erase, h.nodup.erase_eq_filter]
    exact List.filter_congr fun other _ => by by_cases same : other = name <;> simp [same]
  rw [toList_eq_along, order, toList_eq_along]
  exact (PairList.erase_along h.nodup fun other hother => by rw [get?_erase, if_neg hother]).symm

theorem toList_insert (h : m.IsConsistent) (name : String) (value : α) :
    (m.insert name value).toList = PairList.insert name value m.toList := by
  by_cases present : m.contains name
  · obtain ⟨old, hold⟩ := Option.isSome_iff_exists.1 present
    have changed : m.insert name value = m.modify name fun _ => value := by
      rw [OrderedMap.insert, OrderedMap.modify, if_pos present,
        show m.get? name = some old from hold]
    rw [changed, h.toList_modify,
      PairList.insert_of_exists ⟨_, h.mem_toList_iff.2 hold, rfl⟩]
  · have fresh : name ∉ m.order := fun hname => present ((h.mem_iff name).1 hname)
    have order : (m.insert name value).order = m.order ++ [name] := if_neg present
    have others : PairList.along (m.insert name value).get? m.order = m.toList :=
      PairList.along_congr fun other hother => by
        rw [get?_insert, if_neg (ne_of_mem_of_not_mem hother fresh)]
        rfl
    have last : PairList.along (m.insert name value).get? [name] = [(name, value)] :=
      PairList.along_cons_some (by rw [get?_insert, if_pos rfl])
    rw [toList_eq_along, order, PairList.along_append, others, last, toList_eq_along,
      PairList.insert_of_forall_ne (PairList.ne_of_mem_along fresh)]

theorem toList_ofList (entries : List (String × α)) :
    (OrderedMap.ofList entries).toList =
      entries.foldl (fun es e => PairList.insert e.1 e.2 es) [] := by
  suffices ∀ m : OrderedMap α, m.IsConsistent →
      (entries.foldl (fun m e => m.insert e.1 e.2) m).toList =
        entries.foldl (fun es e => PairList.insert e.1 e.2 es) m.toList from this _ .empty
  induction entries with
  | nil => exact fun _ _ => rfl
  | cons e entries ih =>
    intro m h
    rw [List.foldl_cons, List.foldl_cons, ih _ (h.insert e.1 e.2), h.toList_insert]

/-- Consistent maps with the same entries in order are the same. -/
theorem eq_iff_toList_eq (hm : m.IsConsistent) (hn : n.IsConsistent) :
    m = n ↔ m.toList = n.toList := by
  refine ⟨congrArg toList, fun same => ?_⟩
  rw [← ofList_toList hm, same, ofList_toList hn]

end IsConsistent

end OrderedMap

namespace OrderedMap

/-- Whether the map is a list of pairs, each name once: its order and its entries have the same
names, and every question about the map is answered by the list. -/
structure IsListOf {α : Type} (m : OrderedMap α) (es : List (String × α)) : Prop where
  nodup : m.order.Nodup
  names : ∀ name, name ∈ m.order ↔ name ∈ m.entries.names
  toList : m.toList = es
  keys : m.keys = es.map (·.1)
  values : m.values = es.map (·.2)
  size : m.size = es.length
  isEmpty : m.isEmpty = es.isEmpty
  get? : ∀ name, m.get? name = NameMap.find name es
  contains : ∀ name, m.contains name = (NameMap.find name es).isSome

theorem IsConsistent.isListOf {α : Type} {m : OrderedMap α} (h : m.IsConsistent) :
    m.IsListOf m.toList where
  nodup := h.nodup
  names name := (h.mem_iff name).trans NameMap.contains_iff_mem_names
  toList := rfl
  keys := h.map_fst_toList.symm
  values := rfl
  size := by rw [OrderedMap.size, ← h.map_fst_toList, List.length_map]
  isEmpty := by rw [OrderedMap.isEmpty, ← h.map_fst_toList, List.isEmpty_map]
  get? name := (h.find_toList name).symm
  contains name := by rw [h.find_toList, contains_eq_isSome]

end OrderedMap

/-! ### Histories -/

/-- What is done with maps that are known by numbers: a change of one map, a new map, one made from
another, or one made of entries. -/
inductive MapCommand (α : Type)
  | new
  | collect (entries : List (String × α))
  | copy (slot : Nat)
  | extend (slot : Nat) (name : String) (value : α)
  | insert (slot : Nat) (name : String) (value : α)
  | remove (slot : Nat) (name : String)
  | write (slot : Nat) (name : String) (f : α → α)

/-- The number of the map that a command changes. -/
def MapCommand.changed? {α : Type} : MapCommand α → Option Nat
  | insert slot _ _ => some slot
  | remove slot _ => some slot
  | write slot _ _ => some slot
  | _ => none

/-- A kind of maps: how they are made and what is done to one. A change tells the value that the
name had. -/
structure MapKind (σ α : Type) where
  empty : σ
  collect : List (String × α) → σ
  insert : String → α → σ → Option α × σ
  remove : String → σ → Option α × σ
  write : String → (α → α) → σ → Option α × σ

/-- Maps as the catalogs have them. -/
def orderedMaps (α : Type) : MapKind (OrderedMap α) α where
  empty := .empty
  collect := .ofList
  insert name value m := m.replace name value
  remove name m := m.remove name
  write name f m := (m.get? name, m.modify name f)

/-- Lists of pairs as maps. -/
def pairLists (α : Type) : MapKind (List (String × α)) α where
  empty := []
  collect entries := entries.foldl (fun es e => PairList.insert e.1 e.2 es) []
  insert name value es := (NameMap.find name es, PairList.insert name value es)
  remove name es := (NameMap.find name es, PairList.erase name es)
  write name f es := (NameMap.find name es, PairList.modify name f es)

/-- The maps that commands have left, by number, and what the changes have told. -/
structure MapHistory (σ α : Type) where
  maps : List σ := []
  told : List (Option α) := []

namespace MapHistory

variable {σ α : Type}

/-- One more map. -/
def add (h : MapHistory σ α) (m : σ) : MapHistory σ α := { h with maps := h.maps ++ [m] }

/-- One more map, made from another; from one that does not exist, none is made. -/
def derive (h : MapHistory σ α) (slot : Nat) (f : σ → σ) : MapHistory σ α :=
  match h.maps[slot]? with
  | none => h
  | some m => h.add (f m)

/-- A change of one map. -/
def change (h : MapHistory σ α) (slot : Nat) (f : σ → Option α × σ) : MapHistory σ α :=
  match h.maps[slot]? with
  | none => h
  | some m => ⟨h.maps.set slot (f m).2, h.told ++ [(f m).1]⟩

/-- One command more. -/
def step (k : MapKind σ α) (h : MapHistory σ α) : MapCommand α → MapHistory σ α
  | .new => h.add k.empty
  | .collect entries => h.add (k.collect entries)
  | .copy slot => h.derive slot id
  | .extend slot name value => h.derive slot fun m => (k.insert name value m).2
  | .insert slot name value => h.change slot (k.insert name value)
  | .remove slot name => h.change slot (k.remove name)
  | .write slot name f => h.change slot (k.write name f)

/-- The commands in turn. -/
def run (k : MapKind σ α) (h : MapHistory σ α) (commands : List (MapCommand α)) :
    MapHistory σ α :=
  commands.foldl (step k) h

/-! ### A command leaves the other maps as they are -/

theorem getElem?_add {h : MapHistory σ α} {slot : Nat} (known : slot < h.maps.length) (m : σ) :
    (h.add m).maps[slot]? = h.maps[slot]? :=
  List.getElem?_append_left known

theorem getElem?_derive {h : MapHistory σ α} {slot : Nat} (known : slot < h.maps.length)
    (other : Nat) (f : σ → σ) : (h.derive other f).maps[slot]? = h.maps[slot]? := by
  unfold derive
  split
  · rfl
  · exact getElem?_add known _

theorem getElem?_change {h : MapHistory σ α} {slot other : Nat} (apart : other ≠ slot)
    (f : σ → Option α × σ) : (h.change other f).maps[slot]? = h.maps[slot]? := by
  unfold change
  split
  · rfl
  · exact List.getElem?_set_ne apart

theorem getElem?_step {k : MapKind σ α} {h : MapHistory σ α} {slot : Nat}
    (known : slot < h.maps.length) {c : MapCommand α} (apart : c.changed? ≠ some slot) :
    (h.step k c).maps[slot]? = h.maps[slot]? := by
  have other {n : Nat} (h : some n ≠ some slot) : n ≠ slot := fun same => h (congrArg some same)
  cases c with
  | new => exact getElem?_add known _
  | collect entries => exact getElem?_add known _
  | copy source => exact getElem?_derive known _ _
  | extend source name value => exact getElem?_derive known _ _
  | insert changed name value => exact getElem?_change (other apart) _
  | remove changed name => exact getElem?_change (other apart) _
  | write changed name f => exact getElem?_change (other apart) _

theorem getElem?_run {k : MapKind σ α} {commands : List (MapCommand α)} {h : MapHistory σ α}
    {slot : Nat} (known : slot < h.maps.length) (apart : ∀ c ∈ commands, c.changed? ≠ some slot) :
    (h.run k commands).maps[slot]? = h.maps[slot]? := by
  induction commands generalizing h with
  | nil => rfl
  | cons c commands ih =>
    rw [List.forall_mem_cons] at apart
    have kept := getElem?_step (k := k) known apart.1
    have known' : slot < (h.step k c).maps.length := by
      rw [List.getElem?_eq_getElem known] at kept
      exact (List.getElem?_eq_some_iff.1 kept).1
    exact (ih known' apart.2).trans kept

end MapHistory

/-! ### Maps of one kind seen as maps of another -/

/-- Whether maps with a property, seen as maps of another kind, tell and become what those do. -/
structure MapKind.IsSeenAs {σ τ α : Type} (k : MapKind σ α) (k' : MapKind τ α) (P : σ → Prop)
    (view : σ → τ) : Prop where
  empty : P k.empty ∧ k'.empty = view k.empty
  collect : ∀ entries, P (k.collect entries) ∧ k'.collect entries = view (k.collect entries)
  insert : ∀ {m}, P m → ∀ name value, P (k.insert name value m).2 ∧
    k'.insert name value (view m) = (k.insert name value m).map id view
  remove : ∀ {m}, P m → ∀ name, P (k.remove name m).2 ∧
    k'.remove name (view m) = (k.remove name m).map id view
  write : ∀ {m}, P m → ∀ name f, P (k.write name f m).2 ∧
    k'.write name f (view m) = (k.write name f m).map id view

namespace MapHistory

variable {σ τ α : Type} {P : σ → Prop} {view : σ → τ} {h : MapHistory σ α}

/-- The history with its maps seen as others. -/
def seen (h : MapHistory σ α) (view : σ → τ) : MapHistory τ α := ⟨h.maps.map view, h.told⟩

section Step

variable (holds : ∀ m ∈ h.maps, P m)
include holds

theorem seen_add {m : σ} {n : τ} (hm : P m ∧ n = view m) :
    (∀ m' ∈ (h.add m).maps, P m') ∧ (h.seen view).add n = (h.add m).seen view := by
  obtain ⟨hm, rfl⟩ := hm
  refine ⟨List.forall_mem_append.2 ⟨holds, by simpa using hm⟩, ?_⟩
  simp [seen, add]

theorem seen_derive (slot : Nat) {f : σ → σ} {g : τ → τ}
    (hf : ∀ m, P m → P (f m) ∧ g (view m) = view (f m)) :
    (∀ m ∈ (h.derive slot f).maps, P m) ∧
      (h.seen view).derive slot g = (h.derive slot f).seen view := by
  unfold derive
  rw [seen, List.getElem?_map]
  cases hm : h.maps[slot]? with
  | none => exact ⟨holds, rfl⟩
  | some m => exact seen_add holds (hf m (holds m (List.mem_of_getElem? hm)))

theorem seen_change (slot : Nat) {f : σ → Option α × σ} {g : τ → Option α × τ}
    (hf : ∀ m, P m → P (f m).2 ∧ g (view m) = (f m).map id view) :
    (∀ m ∈ (h.change slot f).maps, P m) ∧
      (h.seen view).change slot g = (h.change slot f).seen view := by
  unfold change
  rw [seen, List.getElem?_map]
  cases hm : h.maps[slot]? with
  | none => exact ⟨holds, rfl⟩
  | some m =>
    obtain ⟨kept, same⟩ := hf m (holds m (List.mem_of_getElem? hm))
    refine ⟨fun n hn => ?_, ?_⟩
    · rcases List.mem_or_eq_of_mem_set hn with hn | rfl
      · exact holds n hn
      · exact kept
    · simp [seen, same, List.map_set]

variable {k : MapKind σ α} {k' : MapKind τ α} (alike : k.IsSeenAs k' P view)
include alike

theorem seen_step (c : MapCommand α) :
    (∀ m ∈ (h.step k c).maps, P m) ∧ (h.seen view).step k' c = (h.step k c).seen view := by
  cases c with
  | new => exact seen_add holds alike.empty
  | collect entries => exact seen_add holds (alike.collect entries)
  | copy slot => exact seen_derive holds slot fun m hm => ⟨hm, rfl⟩
  | extend slot name value =>
    refine seen_derive holds slot fun m hm => ?_
    obtain ⟨kept, same⟩ := alike.insert hm name value
    exact ⟨kept, by rw [same]; rfl⟩
  | insert slot name value => exact seen_change holds slot fun m hm => alike.insert hm name value
  | remove slot name => exact seen_change holds slot fun m hm => alike.remove hm name
  | write slot name f => exact seen_change holds slot fun m hm => alike.write hm name f

/-- Kinds that behave alike for one command do so for any number. -/
theorem seen_run (commands : List (MapCommand α)) :
    (∀ m ∈ (h.run k commands).maps, P m) ∧
      (h.seen view).run k' commands = (h.run k commands).seen view := by
  induction commands generalizing h with
  | nil => exact ⟨holds, rfl⟩
  | cons c commands ih =>
    obtain ⟨holds', same⟩ := seen_step holds alike c
    obtain ⟨kept, rest⟩ := ih holds'
    exact ⟨kept, by rw [run, List.foldl_cons, same]; exact rest⟩

end Step

end MapHistory

/-- Consistent ordered maps, seen as the lists of their entries, behave as those do. -/
theorem orderedMaps_isSeenAs {α : Type} :
    (orderedMaps α).IsSeenAs (pairLists α) OrderedMap.IsConsistent OrderedMap.toList where
  empty := ⟨.empty, rfl⟩
  collect entries := ⟨.ofList entries, (OrderedMap.IsConsistent.toList_ofList entries).symm⟩
  insert h name value :=
    ⟨h.insert name value, Prod.ext (h.find_toList name) (h.toList_insert name value).symm⟩
  remove h name := ⟨h.erase name, Prod.ext (h.find_toList name) (h.toList_erase name).symm⟩
  write h name f := ⟨h.modify name f, Prod.ext (h.find_toList name) (h.toList_modify name f).symm⟩

/-- Whatever is done with any number of maps, each of them is the list of pairs that the same
commands make, and they tell the same values; two maps are equal exactly if their lists are, and a
map stays as it is for as long as no command changes it. -/
theorem MapHistory.run_orderedMaps {α : Type} (commands : List (MapCommand α)) :
    let history := run (orderedMaps α) {} commands
    let lists := run (pairLists α) {} commands
    history.told = lists.told ∧
      List.Forall₂ OrderedMap.IsListOf history.maps lists.maps ∧
      (∀ i j : Nat, history.maps[i]? = history.maps[j]? ↔ lists.maps[i]? = lists.maps[j]?) ∧
      ∀ slot < history.maps.length, ∀ more : List (MapCommand α),
        (∀ c ∈ more, c.changed? ≠ some slot) →
          (run (orderedMaps α) {} (commands ++ more)).maps[slot]? = history.maps[slot]? := by
  intro history lists
  obtain ⟨consistent, same⟩ := seen_run (h := {}) (by simp) (orderedMaps_isSeenAs (α := α)) commands
  have maps : lists.maps = history.maps.map OrderedMap.toList := congrArg MapHistory.maps same
  refine ⟨(congrArg told same).symm, ?_, fun i j => ?_, fun slot known more apart => ?_⟩
  · rw [maps, List.forall₂_map_right_iff, List.forall₂_same]
    exact fun m hm => (consistent m hm).isListOf
  · rw [maps, List.getElem?_map, List.getElem?_map]
    refine ⟨congrArg (Option.map OrderedMap.toList), fun h => ?_⟩
    cases hm : history.maps[i]? with
    | none => rw [hm, Option.map_none, eq_comm, Option.map_eq_none_iff] at h; rw [h]
    | some m =>
      rw [hm, Option.map_some, eq_comm, Option.map_eq_some_iff] at h
      obtain ⟨n, hn, same⟩ := h
      rw [hn, ((consistent n (List.mem_of_getElem? hn)).eq_iff_toList_eq
        (consistent m (List.mem_of_getElem? hm))).2 same]
  · rw [run, List.foldl_append]
    exact getElem?_run known apart

/-- A map that is copied before a name is removed, put again and written to. -/
theorem MapHistory.run_orderedMaps_copied :
    let commands : List (MapCommand Nat) :=
      [.collect [("a", 1), ("b", 2), ("a", 3)], .copy 0]
    let more : List (MapCommand Nat) := [.remove 0 "a", .insert 0 "a" 4, .write 0 "b" (· + 5)]
    let history := run (orderedMaps Nat) {} (commands ++ more)
    (∀ c ∈ more, c.changed? ≠ some 1) ∧
      history.told = [some 3, none, some 2] ∧
      history.maps.map OrderedMap.toList = [[("b", 7), ("a", 4)], [("a", 3), ("b", 2)]] ∧
      history.maps[1]? = (run (orderedMaps Nat) {} commands).maps[1]? := by
  intro commands more history
  have apart : ∀ c ∈ more, c.changed? ≠ some 1 := by
    simp [more, MapCommand.changed?]
  exact ⟨apart, by decide +kernel, by decide +kernel,
    (run_orderedMaps commands).2.2.2 1 (by decide +kernel) more apart⟩

end ApiCatalog
