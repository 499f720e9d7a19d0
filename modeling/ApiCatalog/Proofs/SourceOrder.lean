import ApiCatalog.Proofs.KeptDeclarations
import ApiCatalog.Proofs.SameDeclarations

/-!
# The order of sources

Where no name is declared twice, and no type is augmented from two sources, it does not matter in
which order sources are loaded. Whatever is read in a source is the same wherever the source stands;
of each name the only declaration is kept; the members that augmentations add to a type come from one
source and keep their order. So the catalogs declare the same, the faults of the sources are the same
ones in another order, and each problem of the catalog has the place of the same declaration.

Main definition: `Loaded.AgreesUpToOrder`. Main statement: `load_perm`.
-/

namespace ApiCatalog

/-! ### Declarations of different names -/

section Kept

variable {precedence : Precedence} {es es' : List (Declaration × Origin)} {name : String}
  {e : Declaration × Origin}

/-- Where no name is declared twice, every declaration is kept. -/
theorem Precedence.kept_eq_some_iff (distinct : (es.map (·.1.name)).Nodup) :
    precedence.kept es name = some e ↔ e ∈ es ∧ e.1.name = name := by
  have only (d : Declaration × Origin) (hd : precedence.kept es name = some d) :
      d ∈ es ∧ d.1.name = name := by
    refine ⟨mem_of_kept hd, ?_⟩
    cases precedence <;> simpa using List.find?_some hd
  refine ⟨only e, ?_⟩
  rintro ⟨he, rfl⟩
  obtain ⟨d, hd⟩ := exists_kept_iff.2 (List.mem_map.2 ⟨e, he, rfl⟩)
  obtain ⟨hmem, same⟩ := only d hd
  rw [hd, List.inj_on_of_nodup_map distinct hmem he same]

theorem Precedence.kept_perm (perm : es.Perm es') (distinct : (es.map (·.1.name)).Nodup) :
    precedence.kept es = precedence.kept es' := by
  have distinct' : (es'.map (·.1.name)).Nodup := (perm.map _).nodup_iff.1 distinct
  funext name
  refine Option.ext fun e => ?_
  rw [kept_eq_some_iff distinct, kept_eq_some_iff distinct', perm.mem_iff]

end Kept

/-! ### Augmentations of one source each -/

/-- Lists of which at most one is not empty are joined to the same list in any order. -/
theorem flatMap_eq_of_perm {α β : Type} {f : α → List β} {xs ys : List α} (perm : xs.Perm ys)
    (single : xs.Pairwise fun x y => f x = [] ∨ f y = []) : xs.flatMap f = ys.flatMap f := by
  induction perm with
  | nil => rfl
  | cons x _ ih => rw [List.flatMap_cons, List.flatMap_cons, ih (List.pairwise_cons.1 single).2]
  | swap x y xs =>
    simp only [List.flatMap_cons, ← List.append_assoc]
    rcases (List.pairwise_cons.1 single).1 x List.mem_cons_self with h | h <;> simp [h]
  | trans perm _ ih ih' =>
    exact (ih single).trans (ih' ((perm.pairwise_iff Or.symm).1 single))

namespace Reading

variable {sources sources' : List Source}

/-- The fault that is read. -/
def fault? : Reading → Option Problem
  | .fault p => some p
  | .declaration .. => none

/-- Whether no type is augmented from two of the sources. -/
def HaveOwnTargets (sources : List Source) : Prop :=
  sources.Pairwise fun s t => ∀ a ∈ augmentations s.readings, ∀ b ∈ augmentations t.readings,
    a.1.target ≠ b.1.target

instance (sources : List Source) : Decidable (HaveOwnTargets sources) :=
  inferInstanceAs (Decidable (sources.Pairwise _))

theorem addedMembers_perm (perm : sources.Perm sources') (targets : HaveOwnTargets sources)
    (name : String) :
    Collected.addedMembers (augmentations (sources.flatMap Source.readings)) name =
      Collected.addedMembers (augmentations (sources'.flatMap Source.readings)) name := by
  have bySource (sources : List Source) :
      Collected.addedMembers (augmentations (sources.flatMap Source.readings)) name =
        sources.flatMap fun s => Collected.addedMembers (augmentations s.readings) name := by
    rw [augmentations, List.filterMap_flatMap, Collected.addedMembers, List.filter_flatMap,
      List.flatMap_assoc]
    rfl
  rw [bySource, bySource]
  refine flatMap_eq_of_perm perm (targets.imp fun {s t} apart => ?_)
  -- a source without augmentations of the name adds nothing
  have nothing {s : Source} (hs : ∀ a ∈ augmentations s.readings, a.1.target ≠ name) :
      Collected.addedMembers (augmentations s.readings) name = [] := by
    rw [Collected.addedMembers, List.filter_eq_nil_iff.2 (by simpa using hs)]
    rfl
  by_cases hs : ∃ a ∈ augmentations s.readings, a.1.target = name
  · obtain ⟨a, ha, rfl⟩ := hs
    exact .inr (nothing fun b hb => (apart a ha b hb).symm)
  · push Not at hs
    exact .inl (nothing hs)

end Reading

/-! ### Faults -/

namespace Collected

variable {rs : List Reading}

/-- Where no name is declared twice, nothing is reported but the faults that are read. -/
theorem problems_ofReadings (precedence : Precedence) (distinct : (Reading.names rs).Nodup)
    (hrs : ∀ p, Reading.fault p ∈ rs → p.kind.isBetween = false) :
    (ofReadings precedence rs).problems = rs.filterMap Reading.fault? := by
  induction rs using List.reverseRecOn with
  | nil => rfl
  | append_singleton rs r ih =>
    unfold Reading.names Reading.declarations at distinct ih
    rw [List.filterMap_append, List.map_append, List.nodup_append] at distinct
    obtain ⟨distinct, -, apart⟩ := distinct
    have before := ih distinct fun p hp => hrs p (List.mem_append_left _ hp)
    have keeps := keeps_ofReadings precedence fun p hp => hrs p (List.mem_append_left [r] hp)
    unfold ofReadings at before keeps ⊢
    rw [List.foldl_concat, List.filterMap_append, ← before]
    rcases r with p | ⟨d, origin⟩
    · rfl
    · by_cases hd : ∃ a, d = .augment a
      · obtain ⟨a, rfl⟩ := hd
        exact (List.append_nil _).symm
      · push Not at hd
        -- a declaration of a new name
        have declared : Reading.declared? (.declaration d origin) = some (d, origin) := by
          cases d with
          | type | enum => rfl
          | augment a => exact absurd rfl (hd a)
        have new : ¬(rs.foldl (read precedence) ∅).contains d.name = true := fun known =>
          apart _ (keeps.contains_iff.1 known) d.name (by simp [declared]) rfl
        show (add precedence _ d origin).problems = _
        rw [problems_add hd, if_neg new]
        rfl

end Collected

/-! ### Loads -/

/-- Whether two loads tell the same, but perhaps in another order. -/
structure Loaded.AgreesUpToOrder (o o' : Loaded) : Prop where
  type : ∀ name, o.catalog.type? name = o'.catalog.type? name
  enum : ∀ name, o.catalog.enum? name = o'.catalog.enum? name
  typeNames : o.catalog.types.keys.Perm o'.catalog.types.keys
  enumNames : o.catalog.enums.keys.Perm o'.catalog.enums.keys
  cyclic : o.catalog.cyclic = o'.catalog.cyclic
  shadowedOwner? : ∀ owner member,
    o.catalog.shadowedOwner? owner member = o'.catalog.shadowedOwner? owner member
  diagnostics : o.diagnostics.Perm o'.diagnostics

/-- A type of a load is the one that is kept, with the members that augmentations add. -/
theorem type?_load (settings : LoadSettings) (sources : List Source) (name : String) :
    (load settings sources).catalog.type? name =
      ((settings.duplicates.kept (Reading.declarations (sources.flatMap Source.readings)) name).bind
        (·.1.type?)).map (·.addMembers (Collected.addedMembers
          (Reading.augmentations (sources.flatMap Source.readings)) name)) := by
  have keeps := Collected.keeps_ofSources settings.duplicates sources
  rw [Catalog.type?, types_load, Collected.get?_augmentAll, keeps.reflects.types.get?,
    keeps.augmentations]
  rfl

theorem enum?_load (settings : LoadSettings) (sources : List Source) (name : String) :
    (load settings sources).catalog.enum? name =
      (settings.duplicates.kept (Reading.declarations (sources.flatMap Source.readings)) name).bind
        (·.1.enum?) := by
  rw [Catalog.enum?, enums_load]
  exact (Collected.keeps_ofSources settings.duplicates sources).reflects.enums.get? name

theorem isConsistent_enums_load (settings : LoadSettings) (sources : List Source) :
    (load settings sources).catalog.enums.IsConsistent := by
  rw [enums_load]
  exact (Collected.keeps_ofSources settings.duplicates sources).holds.enums

section Load

variable {sources sources' : List Source} (perm : sources.Perm sources')
  (distinct : (Reading.names (sources.flatMap Source.readings)).Nodup)
  (targets : Reading.HaveOwnTargets sources)
include perm distinct

theorem kept_readings_perm (precedence : Precedence) :
    precedence.kept (Reading.declarations (sources.flatMap Source.readings)) =
      precedence.kept (Reading.declarations (sources'.flatMap Source.readings)) :=
  Precedence.kept_perm ((perm.flatMap_right _).filterMap _) distinct

/-- The faults of the sources are reported, whichever source comes first. -/
theorem perm_problems_ofSources (precedence : Precedence) :
    (Collected.ofSources precedence sources).problems.Perm
      (Collected.ofSources precedence sources').problems := by
  have readings : (sources.flatMap Source.readings).Perm (sources'.flatMap Source.readings) :=
    perm.flatMap_right _
  have distinct' : (Reading.names (sources'.flatMap Source.readings)).Nodup :=
    ((readings.filterMap _).map _).nodup_iff.1 distinct
  have faults {sources : List Source} (p : Problem)
      (hp : Reading.fault p ∈ sources.flatMap Source.readings) : p.kind.isBetween = false := by
    obtain ⟨source, -, hp⟩ := List.mem_flatMap.1 hp
    exact isBetween_of_mem_readings hp
  rw [Collected.ofSources_eq_ofReadings, Collected.ofSources_eq_ofReadings,
    Collected.problems_ofReadings precedence distinct faults,
    Collected.problems_ofReadings precedence distinct' faults]
  exact readings.filterMap _

include targets

theorem declareAlike_load (settings : LoadSettings) :
    (load settings sources').catalog.DeclareAlike (load settings sources).catalog where
  built := .load settings sources'
  built' := .load settings sources
  type name := by
    rw [type?_load, type?_load, kept_readings_perm perm distinct,
      Reading.addedMembers_perm perm targets]
  enum name := by rw [enum?_load, enum?_load, kept_readings_perm perm distinct]

/-- Problems of the catalog get the places of the same declarations. -/
theorem perm_placed_problems (settings : LoadSettings) :
    (((load settings sources).catalog.problems settings.checkNames).map
        (Collected.ofSources settings.duplicates sources).augmentAll.place).Perm
      (((load settings sources').catalog.problems settings.checkNames).map
        (Collected.ofSources settings.duplicates sources').augmentAll.place) := by
  have alike := declareAlike_load perm distinct targets settings
  have problems := alike.perm_problems ((isConsistent_enums_load settings sources).perm_values
    (isConsistent_enums_load settings sources') alike.enum) settings.checkNames
  refine (problems.map _).trans (.of_eq (List.map_congr_left fun p hp => ?_))
  obtain ⟨name, e, hname, he, placed⟩ := exists_kept_of_mem_problems (problems.mem_iff.2 hp)
  obtain ⟨name', e', hname', he', placed'⟩ := exists_kept_of_mem_problems hp
  obtain rfl : name = name' := by
    rw [hname] at hname'
    simpa [Catalog.problemIn] using hname'
  rw [kept_readings_perm perm distinct, he', Option.some.injEq] at he
  rw [placed, placed', he]

/-- Whatever order sources are loaded in that declare no name twice and augment no type from two of
them, the same declarations are loaded, with the same derived facts, and the same problems are told,
at the same places. -/
theorem load_perm (settings : LoadSettings) :
    (load settings sources).AgreesUpToOrder (load settings sources') := by
  have alike := declareAlike_load perm distinct targets settings
  exact {
    type := alike.type
    enum := alike.enum
    typeNames := alike.perm_keys
    enumNames := (isConsistent_enums_load settings sources).perm_order
      (isConsistent_enums_load settings sources') alike.enum
    cyclic := alike.cyclic
    shadowedOwner? := fun owner => (alike.answersAlike owner).shadowedOwner?
    diagnostics := by
      rw [diagnostics_load, diagnostics_load]
      refine ((perm_problems_ofSources perm distinct _).append (.map _ ?_)).append
        (perm_placed_problems perm distinct targets settings)
      simp only [alike.contains_types]
      exact ((perm.flatMap_right _).filterMap _).filter _ }

end Load

/-- An augmentation that is loaded before its target, and a class before its parent. -/
theorem load_perm_forward :
    let early : Source := ⟨"early",
      "(augment: Root :members [(property x number)])\n(class: Leaf :extends Root)\n#"⟩
    let late : Source := ⟨"late", "(class: Root :extends Missing)"⟩
    (load .strict [early, late]).AgreesUpToOrder (load .strict [late, early]) :=
  load_perm (.swap _ _ _) (by decide +kernel) (by decide +kernel) .strict

end ApiCatalog
