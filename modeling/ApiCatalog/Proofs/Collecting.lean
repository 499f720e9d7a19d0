import ApiCatalog.Loading
import ApiCatalog.Proofs.OrderedMaps
import ApiCatalog.Proofs.DeclarationParts

/-!
# What a load collects

Whatever sources are read and whichever declarations of a name are kept, the declarations are
collected under their own names, no name is both a type and an enumeration, and each of them was
read from a form. Augmentations then add members to types and change nothing else.

Main statements: `Collected.holds_ofSources`, the invariant of collecting;
`Collected.get?_augmentAll`, the types after all augmentations.
-/

namespace ApiCatalog

theorem Declaration.ofForm?_of_ofForm {f : Form} {d : Declaration}
    (h : Declaration.ofForm f = .ok d) :
    Declaration.ofForm? f = .ok (some d) := by
  obtain ⟨found, hfound, h⟩ := Meaning.bind_eq_ok.1 h
  rw [hfound]
  cases found with
  | some found => cases h; rfl
  | none =>
    dsimp only at h
    split at h <;> simp at h

theorem Declared.ofForm?_of_ofForm {f : Form} {d : Declared} (h : Declared.ofForm f = .ok d) :
    Declaration.ofForm? f = .ok (some d.declaration) := by
  obtain ⟨declaration, hd, h⟩ := Meaning.bind_eq_ok.1 h
  cases h
  exact Declaration.ofForm?_of_ofForm hd

namespace Collected

/-- What collecting keeps: consistent maps of declarations under their own names, without a name
in both of them, and `K` of everything collected. -/
structure Holds (K : Declaration → Prop) (s : Collected) : Prop where
  types : s.types.IsConsistent
  enums : s.enums.IsConsistent
  disjoint : ∀ name, s.types.contains name = true → s.enums.contains name = false
  type : ∀ name d, s.types.get? name = some d → d.name = name ∧ K (.type d)
  enum : ∀ name d, s.enums.get? name = some d → d.name = name ∧ K (.enum d)
  augmentation : ∀ e ∈ s.augmentations, K (.augment e.1)

section Collect

variable {K : Declaration → Prop} {s : Collected}

theorem Holds.empty : (∅ : Collected).Holds K where
  types := .empty
  enums := .empty
  disjoint _ h := by cases h
  type _ _ h := by cases h
  enum _ _ h := by cases h
  augmentation _ h := by cases h

theorem Holds.report (h : s.Holds K) (p : Problem) : (s.report p).Holds K :=
  ⟨h.types, h.enums, h.disjoint, h.type, h.enum, h.augmentation⟩

theorem Holds.foldl_report {α : Type} (h : s.Holds K) (problem : α → Problem) (xs : List α) :
    (xs.foldl (fun s x => s.report (problem x)) s).Holds K := by
  induction xs generalizing s with
  | nil => exact h
  | cons x xs ih => exact ih (h.report (problem x))

theorem Holds.remove (h : s.Holds K) (name : String) : (s.remove name).Holds K where
  types := h.types.erase name
  enums := h.enums.erase name
  disjoint other hother := by
    rw [Collected.remove, OrderedMap.contains_erase, Bool.and_eq_true] at hother
    rw [Collected.remove, OrderedMap.contains_erase, h.disjoint other hother.2, Bool.and_false]
  type other d hd := by
    rw [Collected.remove, OrderedMap.get?_erase] at hd
    split at hd
    · cases hd
    · exact h.type other d hd
  enum other d hd := by
    rw [Collected.remove, OrderedMap.get?_erase] at hd
    split at hd
    · cases hd
    · exact h.enum other d hd
  augmentation := h.augmentation

theorem contains_remove (s : Collected) (name : String) :
    (s.remove name).contains name = false := by
  simp [Collected.contains, Collected.remove, OrderedMap.contains_erase]

theorem Holds.put (h : s.Holds K) {d : Declaration} (hd : K d)
    (new : (∀ a, d ≠ .augment a) → s.contains d.name = false) (origin : Origin) :
    (s.put d origin).Holds K := by
  cases d with
  | type d =>
    have new : s.enums.contains d.name = false := (Bool.or_eq_false_iff.1 (new (by simp))).2
    refine ⟨h.types.insert _ _, h.enums, ?_, ?_, h.enum, h.augmentation⟩
    · intro other hother
      rw [Collected.put, OrderedMap.contains_insert, Bool.or_eq_true, decide_eq_true_iff] at hother
      rcases hother with rfl | hother
      · exact new
      · exact h.disjoint other hother
    · intro other e he
      rw [Collected.put, OrderedMap.get?_insert] at he
      split at he
      · rename_i same
        cases he
        exact ⟨same.symm, hd⟩
      · exact h.type other e he
  | enum d =>
    have new : s.types.contains d.name = false := (Bool.or_eq_false_iff.1 (new (by simp))).1
    refine ⟨h.types, h.enums.insert _ _, ?_, h.type, ?_, h.augmentation⟩
    · intro other (hother : s.types.contains other = true)
      rw [Collected.put, OrderedMap.contains_insert, h.disjoint other hother, Bool.or_false,
        decide_eq_false_iff_not]
      rintro rfl
      rw [new] at hother
      cases hother
    · intro other e he
      rw [Collected.put, OrderedMap.get?_insert] at he
      split at he
      · rename_i same
        cases he
        exact ⟨same.symm, hd⟩
      · exact h.enum other e he
  | augment a =>
    refine ⟨h.types, h.enums, h.disjoint, h.type, h.enum, fun e he => ?_⟩
    rcases List.mem_append.1 he with he | he
    · exact h.augmentation e he
    · rw [List.mem_singleton.1 he]
      exact hd

/-- What becomes of a type or enumeration. -/
theorem add_eq {d : Declaration} (hd : ∀ a, d ≠ .augment a) (precedence : Precedence)
    (s : Collected) (origin : Origin) :
    s.add precedence d origin =
      if s.contains d.name then
        match precedence with
        | .keepFirst => s.report (duplicate d.name origin)
        | .keepLast => ((s.report (duplicate d.name origin)).remove d.name).put d origin
      else s.put d origin := by
  cases d with
  | type | enum => rfl
  | augment a => exact absurd rfl (hd a)

theorem Holds.add (h : s.Holds K) {d : Declaration} (hd : K d) (precedence : Precedence)
    (origin : Origin) : (s.add precedence d origin).Holds K := by
  cases d with
  | augment a => exact h.put hd (fun new => absurd rfl (new a)) origin
  | type | enum =>
    simp only [Collected.add]
    split
    · cases precedence with
      | keepFirst => exact h.report _
      | keepLast =>
        -- the earlier one is taken out first, be it a type or an enumeration
        exact ((h.report _).remove _).put hd (fun _ => contains_remove _ _) origin
    · rename_i new
      exact h.put hd (fun _ => Bool.eq_false_iff.2 new) origin

variable (hK : ∀ {f : Form} {d : Declaration}, Declaration.ofForm? f = .ok (some d) → K d)
include hK

theorem Holds.addForm (h : s.Holds K) (precedence : Precedence) (source : Source) (f : Form) :
    (s.addForm precedence source f).Holds K := by
  unfold Collected.addForm
  split
  · rename_i d hd
    exact h.add (hK (Declared.ofForm?_of_ofForm hd)) precedence _
  · exact h.report _

theorem Holds.collect (h : s.Holds K) (precedence : Precedence) (source : Source) :
    (s.collect precedence source).Holds K := by
  have forms (fs : List Form) {s : Collected} (h : s.Holds K) :
      (fs.foldl (Collected.addForm precedence source) s).Holds K := by
    induction fs generalizing s with
    | nil => exact h
    | cons f fs ih => exact ih (h.addForm hK precedence source f)
  exact forms _ (h.foldl_report _ _)

/-- What has been collected from sources. -/
def ofSources (precedence : Precedence) (sources : List Source) : Collected :=
  sources.foldl (Collected.collect precedence) ∅

/-- Whatever the sources are, everything collected was read from a form, and stands under its
own name. -/
theorem holds_ofSources (precedence : Precedence) (sources : List Source) :
    (ofSources precedence sources).Holds K := by
  have all (s : Collected) (h : s.Holds K) :
      (sources.foldl (Collected.collect precedence) s).Holds K := by
    induction sources generalizing s with
    | nil => exact h
    | cons source sources ih => exact ih _ (h.collect hK precedence source)
  exact all ∅ .empty

end Collect

/-! ### Augmentations -/

/-- The members that augmentations add to the type of a name, in order. -/
def addedMembers (augmentations : List (Augmentation × Origin)) (name : String) : List Member :=
  (augmentations.filter (·.1.target = name)).flatMap (·.1.members)

theorem get?_augment (s : Collected) (a : Augmentation) (origin : Origin) (name : String) :
    (s.augment a origin).types.get? name =
      (s.types.get? name).map
        (·.addMembers (if a.target = name then a.members else [])) := by
  have unchanged (d : TypeDeclaration) : d.addMembers [] = d := by
    simp [TypeDeclaration.addMembers]
  unfold augment
  by_cases same : a.target = name
  · subst same
    rw [if_pos rfl]
    split
    · exact (OrderedMap.get?_modify _ _ _ _).trans (if_pos rfl)
    · rename_i absent
      have absent := OrderedMap.get?_of_not_contains (Bool.eq_false_iff.2 absent)
      show s.types.get? a.target = _
      rw [absent]
      rfl
  · simp only [if_neg same, unchanged, Option.map_id_fun']
    split
    · exact (OrderedMap.get?_modify _ _ _ _).trans (if_neg (Ne.symm same))
    · rfl

@[simp] theorem order_augment (s : Collected) (a : Augmentation) (origin : Origin) :
    (s.augment a origin).types.order = s.types.order := by
  unfold augment
  split
  · exact OrderedMap.keys_modify _ _ _
  · rfl

@[simp] theorem enums_augment (s : Collected) (a : Augmentation) (origin : Origin) :
    (s.augment a origin).enums = s.enums := by
  unfold augment
  split <;> rfl

/-- All augmentations of a type add their members, one after the other. -/
theorem get?_augmentAll (s : Collected) (name : String) :
    s.augmentAll.types.get? name =
      (s.types.get? name).map (·.addMembers (addedMembers s.augmentations name)) := by
  unfold augmentAll
  generalize s.augmentations = es
  induction es generalizing s with
  | nil => simp [addedMembers, TypeDeclaration.addMembers]
  | cons e es ih =>
    rw [List.foldl_cons, ih, get?_augment, Option.map_map]
    congr 1
    funext d
    by_cases same : e.1.target = name <;>
      simp [addedMembers, TypeDeclaration.addMembers, same]

@[simp] theorem order_augmentAll (s : Collected) : s.augmentAll.types.order = s.types.order := by
  unfold augmentAll
  generalize s.augmentations = es
  induction es generalizing s with
  | nil => rfl
  | cons e es ih => rw [List.foldl_cons, ih, order_augment]

@[simp] theorem enums_augmentAll (s : Collected) : s.augmentAll.enums = s.enums := by
  unfold augmentAll
  generalize s.augmentations = es
  induction es generalizing s with
  | nil => rfl
  | cons e es ih => rw [List.foldl_cons, ih, enums_augment]

theorem Holds.isConsistent_augmentAll {K : Declaration → Prop} {s : Collected} (h : s.Holds K) :
    s.augmentAll.types.IsConsistent := by
  refine ⟨order_augmentAll s ▸ h.types.nodup, fun name => ?_⟩
  rw [order_augmentAll, h.types.mem_iff, OrderedMap.contains_eq_isSome,
    OrderedMap.contains_eq_isSome, get?_augmentAll, Option.isSome_map]

end Collected

/-! ### The catalog of a load -/

theorem types_load (settings : LoadSettings) (sources : List Source) :
    (load settings sources).catalog.types =
      (Collected.ofSources settings.duplicates sources).augmentAll.types := rfl

theorem enums_load (settings : LoadSettings) (sources : List Source) :
    (load settings sources).catalog.enums =
      (Collected.ofSources settings.duplicates sources).enums :=
  Collected.enums_augmentAll _

end ApiCatalog
