import Mathlib.Data.List.Dedup
import ApiCatalog.Proofs.ProblemPlaces

/-!
# What a load keeps

The sources of a load are read into one list of declarations and faults. Of the declarations of one
name the first or the last is kept, as the settings say, in the order of the first or the last ones;
every one behind the first of its name is reported. Augmentations wait until all sources are read,
and then go to the types that were kept.

What has been collected depends on that list alone, and is described here without the maps that it
is collected in: a step adds one reading, and a run is an induction on the list from its end.

Main definitions: `Source.readings`, `Precedence.kept`, `Precedence.order`, `Loaded.Keeps`.
Main statement: `load_keeps`.
-/

namespace ApiCatalog

/-! ### What is read -/

/-- What is read in a source: a fault, or a declaration with its place. -/
inductive Reading
  | fault (problem : Problem)
  | declaration (declaration : Declaration) (origin : Origin)

/-- What a form of a source is read as. -/
def Source.readingOf (s : Source) (f : Form) : Reading :=
  match Declared.ofForm f with
  | .ok d => .declaration d.declaration ⟨s.name, d.span⟩
  | .error fault => .fault (s.locate fault.problem f.intendedName?)

/-- Everything that is read in a source: the faults of the text, then what its forms are read as. -/
def Source.readings (s : Source) : List Reading :=
  let (forms, problems) := Form.allRecovering s.text.toList
  problems.map (fun p => .fault (s.locate p none)) ++ forms.map s.readingOf

/-- The type that is declared. -/
def Declaration.type? : Declaration → Option TypeDeclaration
  | .type d => some d
  | _ => none

/-- The enumeration that is declared. -/
def Declaration.enum? : Declaration → Option Enumeration
  | .enum e => some e
  | _ => none

namespace Reading

/-- The type or enumeration that is declared, with its place. -/
def declared? : Reading → Option (Declaration × Origin)
  | .fault _ | .declaration (.augment _) _ => none
  | .declaration d origin => some (d, origin)

/-- The augmentation that is read, with its place. -/
def augmentation? : Reading → Option (Augmentation × Origin)
  | .declaration (.augment a) origin => some (a, origin)
  | _ => none

/-- The types and enumerations among readings. -/
def declarations (rs : List Reading) : List (Declaration × Origin) := rs.filterMap declared?

/-- The augmentations among readings. -/
def augmentations (rs : List Reading) : List (Augmentation × Origin) := rs.filterMap augmentation?

/-- The names of the types and enumerations among readings. -/
def names (rs : List Reading) : List String := (declarations rs).map (·.1.name)

end Reading

namespace Collected

/-- Adds a reading. -/
def read (precedence : Precedence) (s : Collected) : Reading → Collected
  | .fault p => s.report p
  | .declaration d origin => s.add precedence d origin

/-- What is collected from readings. -/
def ofReadings (precedence : Precedence) (rs : List Reading) : Collected :=
  rs.foldl (read precedence) ∅

theorem read_readingOf (precedence : Precedence) (source : Source) (s : Collected) (f : Form) :
    s.read precedence (source.readingOf f) = s.addForm precedence source f := by
  unfold Source.readingOf addForm
  cases Declared.ofForm f <;> rfl

theorem foldl_read_readings (precedence : Precedence) (source : Source) (s : Collected) :
    source.readings.foldl (read precedence) s = s.collect precedence source := by
  unfold Source.readings collect
  simp only [List.foldl_append, List.foldl_map, read_readingOf]
  rfl

/-- To collect from sources is to add all their readings in a row. -/
theorem ofSources_eq_ofReadings (precedence : Precedence) (sources : List Source) :
    ofSources precedence sources = ofReadings precedence (sources.flatMap Source.readings) := by
  unfold ofSources ofReadings
  rw [List.foldl_flatMap]
  simp only [foldl_read_readings]

end Collected

/-! ### The declarations that are kept -/

namespace Precedence

variable {precedence : Precedence} {es : List (Declaration × Origin)} {names : List String}
  {name : String}

/-- Of the declarations of a name the one that is kept: the first or the last. -/
def kept (precedence : Precedence) (es : List (Declaration × Origin)) (name : String) :
    Option (Declaration × Origin) :=
  match precedence with
  | .keepFirst => es.find? (·.1.name = name)
  | .keepLast => es.reverse.find? (·.1.name = name)

/-- Names in the order of those that are kept: of each the first or the last. -/
def order (precedence : Precedence) (names : List String) : List String :=
  match precedence with
  | .keepFirst => names.eraseDups
  | .keepLast => names.dedup

theorem exists_kept_iff : (∃ e, precedence.kept es name = some e) ↔ name ∈ es.map (·.1.name) := by
  rw [← Option.isSome_iff_exists]
  cases precedence <;> simp [kept, List.find?_isSome]

theorem mem_of_kept {e : Declaration × Origin} (h : precedence.kept es name = some e) :
    e ∈ es := by
  cases precedence with
  | keepFirst => exact List.mem_of_find?_eq_some h
  | keepLast => exact List.mem_reverse.1 (List.mem_of_find?_eq_some h)

/-- One more declaration is kept in place of an earlier one of its name, unless the first counts. -/
theorem kept_concat (precedence : Precedence) (es : List (Declaration × Origin))
    (e : Declaration × Origin) :
    precedence.kept (es ++ [e]) =
      if precedence = .keepFirst ∧ e.1.name ∈ es.map (·.1.name) then precedence.kept es
      else Function.update (precedence.kept es) e.1.name (some e) := by
  funext name
  cases precedence with
  | keepFirst =>
    have known := @exists_kept_iff .keepFirst es e.1.name
    unfold kept at known ⊢
    dsimp only at known ⊢
    rw [List.find?_append]
    by_cases same : name = e.1.name
    · subst same
      cases found : es.find? (·.1.name = e.1.name) with
      | none =>
        rw [found] at known
        simp [← known]
      | some d =>
        rw [found] at known
        simp [← known, found]
    · split <;> simp [Ne.symm same, same]
  | keepLast =>
    unfold kept
    rw [List.reverse_concat, List.find?_cons]
    by_cases same : name = e.1.name
    · simp [same]
    · simp [same, Ne.symm same]

theorem mem_order : name ∈ precedence.order names ↔ name ∈ names := by
  cases precedence with
  | keepFirst => exact List.mem_eraseDups
  | keepLast => exact List.mem_dedup

/-- A new name goes to the end; one that comes again stays where it was, or goes to the end. -/
theorem order_concat (precedence : Precedence) (names : List String) (name : String) :
    precedence.order (names ++ [name]) =
      if precedence = .keepFirst ∧ name ∈ names then precedence.order names
      else (precedence.order names).filter (· ≠ name) ++ [name] := by
  cases precedence with
  | keepFirst =>
    unfold order
    dsimp only
    rw [List.eraseDups_append]
    by_cases known : name ∈ names
    · simp [List.removeAll, known]
    · have apart : ∀ n ∈ names.eraseDups, n ≠ name := by
        rintro n hn rfl
        exact known (List.mem_eraseDups.1 hn)
      rw [List.filter_eq_self.2 (by simpa using apart)]
      simp [List.removeAll, known, List.eraseDups_cons]
  | keepLast =>
    unfold order
    simp only [reduceCtorEq, false_and, if_false]
    induction names with
    | nil => simp
    | cons n names ih =>
      by_cases known : n ∈ names
      · rw [List.cons_append, List.dedup_cons_of_mem (by simp [known]), ih,
          List.dedup_cons_of_mem known]
      · by_cases same : n = name
        · subst same
          rw [List.cons_append, List.dedup_cons_of_mem (by simp), ih,
            List.dedup_cons_of_notMem known]
          simp
        · rw [List.cons_append, List.dedup_cons_of_notMem (by simp [known, same]), ih,
            List.dedup_cons_of_notMem known]
          simp [same]

example : Precedence.keepFirst.order ["A", "B", "A"] = ["A", "B"] ∧
    Precedence.keepLast.order ["A", "B", "A"] = ["B", "A"] := by decide

theorem nodup_order (precedence : Precedence) (names : List String) :
    (precedence.order names).Nodup := by
  induction names using List.reverseRecOn with
  | nil => cases precedence <;> exact .nil
  | append_singleton names name ih =>
    rw [order_concat]
    split
    · exact ih
    · rw [List.nodup_append]
      refine ⟨ih.filter _, by simp, ?_⟩
      rintro n hn _ hname rfl
      simp [List.mem_singleton.1 hname] at hn

end Precedence

/-- The declarations behind the first of their name, given the names of those before. -/
def repeats (before : List String) :
    List (Declaration × Origin) → List (Declaration × Origin)
  | [] => []
  | e :: es =>
    if e.1.name ∈ before then e :: repeats before es else repeats (e.1.name :: before) es

theorem repeats_concat (before : List String) (es : List (Declaration × Origin))
    (e : Declaration × Origin) :
    repeats before (es ++ [e]) = repeats before es ++
      if e.1.name ∈ before ∨ e.1.name ∈ es.map (·.1.name) then [e] else [] := by
  induction es generalizing before with
  | nil =>
    unfold repeats
    split <;> simp_all [repeats]
  | cons d es ih =>
    rw [List.cons_append, repeats, repeats]
    split
    · rename_i known
      rw [ih, List.cons_append]
      congr 2
      refine if_congr ?_ rfl rfl
      simp only [List.map_cons, List.mem_cons]
      constructor
      · exact fun h => h.imp_right .inr
      · rintro (h | h | h)
        · exact .inl h
        · exact .inl (h ▸ known)
        · exact .inr h
    · rw [ih]
      congr 1
      refine if_congr ?_ rfl rfl
      simp only [List.map_cons, List.mem_cons]
      rw [or_assoc, or_left_comm]

/-! ### What is collected -/

namespace OrderedMap

variable {α : Type} {m : OrderedMap α} {names : List String} {values : String → Option α}
  {name : String}

/-- Whether a map has the values, in the order of the names. -/
structure Has (m : OrderedMap α) (names : List String) (values : String → Option α) : Prop where
  get? : ∀ name, m.get? name = values name
  order : m.order = names.filter m.contains

theorem Has.erase (h : m.Has names values) (hm : m.IsConsistent) (name : String) :
    (m.erase name).Has names (Function.update values name none) where
  get? other := by
    rw [get?_erase, Function.update_apply, h.get?]
  order := by
    rw [hm.order_erase, h.order, List.filter_filter]
    exact List.filter_congr fun other _ => (contains_erase _ _ _).symm

/-- A new name goes to the end of the order, wherever it was before. -/
theorem Has.insert (h : m.Has names values) (new : m.contains name = false) (value : α) :
    (m.insert name value).Has (names.filter (· ≠ name) ++ [name])
      (Function.update values name (some value)) where
  get? other := by
    rw [get?_insert, Function.update_apply, h.get?]
  order := by
    have others : ∀ other ∈ names,
        m.contains other = ((m.insert name value).contains other && decide (other ≠ name)) := by
      intro other _
      rw [contains_insert]
      by_cases same : other = name
      · simp [same, new]
      · simp [same]
    have last : (m.insert name value).contains name = true := by simp [contains_insert]
    rw [List.filter_append, List.filter_filter, ← List.filter_congr others,
      List.filter_cons_of_pos last, ← h.order]
    exact (keys_insert _ _ _).trans (if_neg (by simp [new]))

/-- The order of a map does not tell where a name is that it does not have. -/
theorem Has.move (h : m.Has names values) (new : m.contains name = false) :
    m.Has (names.filter (· ≠ name) ++ [name]) (Function.update values name none) where
  get? other := by
    rw [Function.update_apply]
    split
    · rename_i same
      rw [same, get?_of_not_contains new]
    · exact h.get? other
  order := by
    have others : ∀ other ∈ names,
        m.contains other = (m.contains other && decide (other ≠ name)) := by
      intro other _
      by_cases same : other = name
      · simp [same, new]
      · simp [same]
    rw [List.filter_append, List.filter_filter, ← List.filter_congr others,
      List.filter_cons_of_neg (by simp [new]), List.filter_nil, List.append_nil]
    exact h.order

end OrderedMap

namespace Collected

section Collect

variable {precedence : Precedence} {s : Collected} {names : List String} {name : String}
  {kept : String → Option (Declaration × Origin)} {es : List (Declaration × Origin)}
  {K : Declaration → Prop}

/-- Whether a collection has the declarations that are kept, in the order of the names, and their
places. -/
structure Reflects (s : Collected) (names : List String)
    (kept : String → Option (Declaration × Origin)) : Prop where
  types : s.types.Has names ((·.bind (·.1.type?)) ∘ kept)
  enums : s.enums.Has names ((·.bind (·.1.enum?)) ∘ kept)
  origin : ∀ name e, kept name = some e → s.origins.get? name = some e.2

theorem Reflects.empty : (∅ : Collected).Reflects [] fun _ => none where
  types := ⟨fun _ => rfl, rfl⟩
  enums := ⟨fun _ => rfl, rfl⟩
  origin _ _ h := by cases h

theorem Reflects.report (h : s.Reflects names kept) (p : Problem) :
    (s.report p).Reflects names kept := ⟨h.types, h.enums, h.origin⟩

theorem Reflects.remove (h : s.Reflects names kept) (hs : s.Holds K) (name : String) :
    (s.remove name).Reflects names (Function.update kept name none) where
  types := by
    rw [Function.comp_update]
    exact h.types.erase hs.types name
  enums := by
    rw [Function.comp_update]
    exact h.enums.erase hs.enums name
  origin other e he := by
    rw [Function.update_apply] at he
    split at he
    · cases he
    · exact h.origin other e he

theorem Reflects.put (h : s.Reflects names kept) {d : Declaration} (hd : ∀ a, d ≠ .augment a)
    (new : s.contains d.name = false) (origin : Origin) :
    (s.put d origin).Reflects (names.filter (· ≠ d.name) ++ [d.name])
      (Function.update kept d.name (some (d, origin))) := by
  obtain ⟨newType, newEnum⟩ := Bool.or_eq_false_iff.1 new
  have placed (other : String) (e : Declaration × Origin)
      (he : Function.update kept d.name (some (d, origin)) other = some e) :
      (s.origins.insert d.name origin).get? other = some e.2 := by
    rw [Function.update_apply] at he
    rw [NameMap.get?_insert]
    split at he
    · cases he
      rw [if_pos ‹_›]
    · rw [if_neg ‹_›]
      exact h.origin other e he
  cases d with
  | type d =>
    refine ⟨?_, ?_, placed⟩
    · rw [Function.comp_update]
      exact h.types.insert newType d
    · rw [Function.comp_update]
      exact h.enums.move newEnum
  | enum d =>
    refine ⟨?_, ?_, placed⟩
    · rw [Function.comp_update]
      exact h.types.move newType
    · rw [Function.comp_update]
      exact h.enums.insert newEnum d
  | augment a => exact absurd rfl (hd a)

/-- A collection contains the names of what is kept, if that are types and enumerations. -/
theorem Reflects.contains_iff (h : s.Reflects names (precedence.kept es))
    (hes : ∀ e ∈ es, ∀ a, e.1 ≠ .augment a) :
    s.contains name = true ↔ name ∈ es.map (·.1.name) := by
  have either : s.contains name = (((precedence.kept es name).bind (·.1.type?)).isSome ||
      ((precedence.kept es name).bind (·.1.enum?)).isSome) := by
    rw [contains, OrderedMap.contains_eq_isSome, OrderedMap.contains_eq_isSome, h.types.get?,
      h.enums.get?]
    rfl
  rw [either, ← Precedence.exists_kept_iff]
  constructor
  · intro some
    cases hkept : precedence.kept es name with
    | none => simp [hkept] at some
    | some e => exact ⟨e, rfl⟩
  · rintro ⟨e, he⟩
    rw [he]
    obtain ⟨d, origin⟩ := e
    cases d with
    | type | enum => rfl
    | augment a => exact absurd rfl (hes _ (Precedence.mem_of_kept he) a)

theorem Reflects.add
    (h : s.Reflects (precedence.order (es.map (·.1.name))) (precedence.kept es)) (hs : s.Holds K)
    (hes : ∀ e ∈ es, ∀ a, e.1 ≠ .augment a) {d : Declaration} (hd : ∀ a, d ≠ .augment a)
    (origin : Origin) :
    (s.add precedence d origin).Reflects
      (precedence.order ((es ++ [(d, origin)]).map (·.1.name)))
      (precedence.kept (es ++ [(d, origin)])) := by
  have known : s.contains d.name = true ↔ d.name ∈ es.map (·.1.name) := h.contains_iff hes
  rw [List.map_append, List.map_singleton, Precedence.order_concat, Precedence.kept_concat,
    add_eq hd]
  dsimp only
  by_cases present : d.name ∈ es.map (·.1.name)
  · rw [if_pos (known.2 present)]
    cases precedence with
    | keepFirst =>
      rw [if_pos ⟨rfl, present⟩, if_pos ⟨rfl, present⟩]
      exact h.report _
    | keepLast =>
      have removed := (h.report (duplicate d.name origin)).remove (hs.report _) d.name
      have added := removed.put hd (contains_remove _ _) origin
      rw [Function.update_idem] at added
      rw [if_neg (by simp), if_neg (by simp)]
      exact added
  · have new : ¬s.contains d.name = true := fun h => present (known.1 h)
    rw [if_neg new, if_neg fun h => present h.2, if_neg fun h => present h.2]
    exact h.put hd (Bool.eq_false_iff.2 new) origin

/-- A declaration that comes again is reported, whichever is kept. -/
theorem problems_add {d : Declaration} (hd : ∀ a, d ≠ .augment a) (precedence : Precedence)
    (s : Collected) (origin : Origin) :
    (s.add precedence d origin).problems =
      s.problems ++ if s.contains d.name then [duplicate d.name origin] else [] := by
  have problems_put (s : Collected) : (s.put d origin).problems = s.problems := by
    cases d <;> rfl
  rw [add_eq hd]
  split
  · cases precedence with
    | keepFirst => rfl
    | keepLast => exact problems_put _
  · rw [problems_put, List.append_nil]

theorem augmentations_add {d : Declaration} (hd : ∀ a, d ≠ .augment a) (precedence : Precedence)
    (s : Collected) (origin : Origin) :
    (s.add precedence d origin).augmentations = s.augmentations := by
  have augmentations_put (s : Collected) : (s.put d origin).augmentations = s.augmentations := by
    cases d with
    | type | enum => rfl
    | augment a => exact absurd rfl (hd a)
  rw [add_eq hd]
  split
  · cases precedence with
    | keepFirst => rfl
    | keepLast => exact augmentations_put _
  · exact augmentations_put s

/-- What is collected once declarations and augmentations are read. -/
structure Keeps (s : Collected) (precedence : Precedence) (es : List (Declaration × Origin))
    (as : List (Augmentation × Origin)) : Prop where
  holds : s.Holds fun _ => True
  declared : ∀ e ∈ es, ∀ a, e.1 ≠ .augment a
  reflects : s.Reflects (precedence.order (es.map (·.1.name))) (precedence.kept es)
  augmentations : s.augmentations = as
  duplicates : s.problems.filter (·.kind.isDuplicate) =
    (repeats [] es).map fun e => duplicate e.1.name e.2
  unmatched : s.problems.filter (·.kind.isUnmatched) = []

variable {as : List (Augmentation × Origin)} {rs : List Reading}

theorem Keeps.empty (precedence : Precedence) : (∅ : Collected).Keeps precedence [] [] where
  holds := .empty
  declared _ he := by cases he
  reflects := by cases precedence <;> exact .empty
  augmentations := rfl
  duplicates := rfl
  unmatched := rfl

theorem Keeps.contains_iff (h : s.Keeps precedence es as) :
    s.contains name = true ↔ name ∈ es.map (·.1.name) := h.reflects.contains_iff h.declared

theorem Keeps.report (h : s.Keeps precedence es as) {p : Problem}
    (hp : p.kind.isBetween = false) : (s.report p).Keeps precedence es as := by
  obtain ⟨notDuplicate, notUnmatched⟩ := Bool.or_eq_false_iff.1 hp
  refine ⟨h.holds.report p, h.declared, h.reflects.report p, h.augmentations, ?_, ?_⟩
  · rw [Collected.report, List.filter_append, h.duplicates, List.filter_singleton, notDuplicate]
    exact List.append_nil _
  · rw [Collected.report, List.filter_append, h.unmatched, List.filter_singleton, notUnmatched]
    rfl

theorem Keeps.putAugmentation (h : s.Keeps precedence es as) (a : Augmentation)
    (origin : Origin) :
    (s.put (.augment a) origin).Keeps precedence es (as ++ [(a, origin)]) where
  holds := h.holds.put trivial (fun new => absurd rfl (new a)) origin
  declared := h.declared
  reflects := ⟨h.reflects.types, h.reflects.enums, h.reflects.origin⟩
  augmentations := congrArg (· ++ [(a, origin)]) h.augmentations
  duplicates := h.duplicates
  unmatched := h.unmatched

theorem Keeps.add (h : s.Keeps precedence es as) {d : Declaration} (hd : ∀ a, d ≠ .augment a)
    (origin : Origin) :
    (s.add precedence d origin).Keeps precedence (es ++ [(d, origin)]) as where
  holds := h.holds.add trivial precedence origin
  declared := by
    rw [List.forall_mem_append, List.forall_mem_singleton]
    exact ⟨h.declared, hd⟩
  reflects := h.reflects.add h.holds h.declared hd origin
  augmentations := (augmentations_add hd precedence s origin).trans h.augmentations
  duplicates := by
    rw [problems_add hd, List.filter_append, h.duplicates, repeats_concat, List.map_append]
    congr 1
    by_cases known : s.contains d.name = true
    · rw [if_pos known, if_pos (.inr (h.contains_iff.1 known))]
      rfl
    · rw [if_neg known, if_neg (by simpa using fun hd => known (h.contains_iff.2 hd))]
      rfl
  unmatched := by
    rw [problems_add hd, List.filter_append, h.unmatched]
    split <;> rfl

/-- One more reading is kept as the precedence says, and a fault costs no declaration. -/
theorem Keeps.read
    (h : s.Keeps precedence (Reading.declarations rs) (Reading.augmentations rs)) (r : Reading)
    (hr : ∀ p, r = .fault p → p.kind.isBetween = false) :
    (s.read precedence r).Keeps precedence (Reading.declarations (rs ++ [r]))
      (Reading.augmentations (rs ++ [r])) := by
  unfold Reading.declarations Reading.augmentations at h ⊢
  rw [List.filterMap_append, List.filterMap_append]
  rcases r with p | ⟨d | d | a, origin⟩
  · show (s.report p).Keeps precedence (_ ++ []) (_ ++ [])
    rw [List.append_nil, List.append_nil]
    exact h.report (hr p rfl)
  · show (s.add precedence (.type d) origin).Keeps precedence (_ ++ [(.type d, origin)]) (_ ++ [])
    rw [List.append_nil]
    exact h.add (by simp) origin
  · show (s.add precedence (.enum d) origin).Keeps precedence (_ ++ [(.enum d, origin)]) (_ ++ [])
    rw [List.append_nil]
    exact h.add (by simp) origin
  · show (s.put (.augment a) origin).Keeps precedence (_ ++ []) (_ ++ [(a, origin)])
    rw [List.append_nil]
    exact h.putAugmentation a origin

/-- What is collected from readings keeps their declarations. -/
theorem keeps_ofReadings (precedence : Precedence)
    (hrs : ∀ p, Reading.fault p ∈ rs → p.kind.isBetween = false) :
    (ofReadings precedence rs).Keeps precedence (Reading.declarations rs)
      (Reading.augmentations rs) := by
  induction rs using List.reverseRecOn with
  | nil => exact .empty precedence
  | append_singleton rs r ih =>
    unfold ofReadings at ih ⊢
    rw [List.foldl_concat]
    refine (ih fun p hp => hrs p (List.mem_append_left _ hp)).read r ?_
    rintro p rfl
    exact hrs p (by simp)

/-! ### The number of declarations -/

/-- The number of types and enumerations. -/
def size (s : Collected) : Nat := s.types.size + s.enums.size

/-- There are as many types and enumerations as there are names. -/
theorem Keeps.size_eq (h : s.Keeps precedence es as) :
    s.size = (precedence.order (es.map (·.1.name))).length := by
  unfold size OrderedMap.size
  rw [h.reflects.types.order, h.reflects.enums.order]
  apply Eq.trans _ (List.length_eq_length_filter_add s.types.contains).symm
  congr 2
  refine List.filter_congr fun name hname => ?_
  have known := h.contains_iff.2 (Precedence.mem_order.1 hname)
  rw [contains, Bool.or_eq_true] at known
  cases htype : s.types.contains name with
  | true => exact h.holds.disjoint name htype
  | false => simpa [htype] using known

/-- More readings do not make the declarations fewer. -/
theorem size_ofReadings_le (precedence : Precedence) {more : List Reading}
    (hrs : ∀ p, Reading.fault p ∈ rs ++ more → p.kind.isBetween = false) :
    (ofReadings precedence rs).size ≤ (ofReadings precedence (rs ++ more)).size := by
  have before := keeps_ofReadings precedence fun p hp => hrs p (List.mem_append_left more hp)
  have after := keeps_ofReadings precedence hrs
  rw [before.size_eq, after.size_eq]
  refine (Precedence.nodup_order _ _).length_le_of_subset fun name hname => ?_
  rw [Precedence.mem_order] at hname ⊢
  rw [Reading.declarations, List.filterMap_append, List.map_append]
  exact List.mem_append_left _ hname

end Collect

/-! ### Augmentations and places -/

section Augment

variable {s : Collected} {name : String}

/-- The problem of an augmentation without a target. -/
def unmatched (target : String) (origin : Origin) : Problem :=
  ⟨.unresolvedReference ("augment " ++ target) target .augmentTarget,
    some (origin.context target)⟩

theorem contains_augment (s : Collected) (a : Augmentation) (origin : Origin) (name : String) :
    (s.augment a origin).types.contains name = s.types.contains name := by
  rw [OrderedMap.contains_eq_isSome, get?_augment, Option.isSome_map]
  rfl

theorem problems_augment (s : Collected) (a : Augmentation) (origin : Origin) :
    (s.augment a origin).problems =
      s.problems ++ if s.types.contains a.target then [] else [unmatched a.target origin] := by
  unfold augment
  split
  · exact (List.append_nil _).symm
  · rfl

/-- An augmentation is reported if its target is no type that was collected. -/
theorem problems_augmentAll (s : Collected) :
    s.augmentAll.problems = s.problems ++
      (s.augmentations.filter fun e => !s.types.contains e.1.target).map
        fun e => unmatched e.1.target e.2 := by
  unfold augmentAll
  generalize s.augmentations = es
  induction es generalizing s with
  | nil => exact (List.append_nil _).symm
  | cons e es ih =>
    rw [List.foldl_cons, ih, problems_augment, List.append_assoc]
    simp only [contains_augment]
    cases known : s.types.contains e.1.target <;> simp [known]

theorem origins_augmentAll (s : Collected) : s.augmentAll.origins = s.origins := by
  unfold augmentAll
  generalize s.augmentations = es
  induction es generalizing s with
  | nil => rfl
  | cons e es ih =>
    rw [List.foldl_cons, ih]
    unfold augment
    split <;> rfl

theorem place_problemIn {origin : Origin} (h : s.origins.get? name = some origin)
    (kind : Problem.Kind) :
    s.place (Catalog.problemIn name kind) = ⟨kind, some (origin.context name)⟩ := by
  have found : ((Catalog.problemIn name kind).context.bind (·.declaration)).bind s.origins.get? =
      some origin := h
  rw [place, found]
  rfl

end Augment

end Collected

/-! ### Loads -/

theorem isBetween_locate (source : Source) (p : Problem) (declaration : Option String) :
    (source.locate p declaration).kind.isBetween = p.kind.isBetween := by
  unfold Source.locate
  split
  · rename_i malformed
    rw [malformed]
    rfl
  · rfl

/-- No fault of a source says that a name is declared again, or that an augmentation has no
target. -/
theorem isBetween_of_mem_readings {source : Source} {p : Problem}
    (hp : Reading.fault p ∈ source.readings) : p.kind.isBetween = false := by
  rcases List.mem_append.1 hp with hp | hp
  · obtain ⟨q, hq, same⟩ := List.mem_map.1 hp
    cases same
    obtain ⟨⟨fault, span⟩, -, rfl⟩ := List.mem_map.1 hq
    rw [isBetween_locate]
    rfl
  · obtain ⟨f, -, hf⟩ := List.mem_map.1 hp
    unfold Source.readingOf at hf
    split at hf
    · cases hf
    · cases hf
      rw [isBetween_locate]
      rfl

/-- What a load keeps of what is read, and what it tells of the rest. -/
structure Loaded.Keeps (o : Loaded) (settings : LoadSettings) (rs : List Reading) : Prop where
  /-- Every name that is declared is that of a type or of an enumeration, and no other name is. -/
  contains_iff : ∀ name, o.catalog.contains name = true ↔ name ∈ Reading.names rs
  /-- No name is that of both. -/
  disjoint : ∀ name, ¬(o.catalog.types.contains name = true ∧ o.catalog.enums.contains name = true)
  typeName : ∀ name d, o.catalog.type? name = some d → d.name = name
  enumName : ∀ name e, o.catalog.enum? name = some e → e.name = name
  /-- Behind its own members a type that is kept has those of its augmentations. -/
  type : ∀ name, o.catalog.type? name =
    ((settings.duplicates.kept (Reading.declarations rs) name).bind (·.1.type?)).map
      (·.addMembers (Collected.addedMembers (Reading.augmentations rs) name))
  enum : ∀ name, o.catalog.enum? name =
    (settings.duplicates.kept (Reading.declarations rs) name).bind (·.1.enum?)
  typeOrder : o.catalog.types.keys =
    (settings.duplicates.order (Reading.names rs)).filter o.catalog.types.contains
  enumOrder : o.catalog.enums.keys =
    (settings.duplicates.order (Reading.names rs)).filter o.catalog.enums.contains
  /-- Every declaration behind the first of its name is reported once, at its own place. -/
  duplicates : o.diagnostics.filter (·.kind.isDuplicate) =
    (repeats [] (Reading.declarations rs)).map fun e => Collected.duplicate e.1.name e.2
  /-- Every augmentation without a type that is kept is reported once, at its own place. -/
  unmatched : o.diagnostics.filter (·.kind.isUnmatched) =
    ((Reading.augmentations rs).filter fun e => !o.catalog.types.contains e.1.target).map
      fun e => Collected.unmatched e.1.target e.2
  unmatchedWarning : ∀ p ∈ o.diagnostics, p.kind.isUnmatched = true → p.isWarning = true
  /-- The problems of the catalog come last, each at the place of the kept declaration that it
  names. -/
  placed : ∃ before found, o.diagnostics = before ++ found ∧
    List.Forall₂ (fun p q => ∃ (name : String) (e : Declaration × Origin),
      p = Catalog.problemIn name p.kind ∧
      settings.duplicates.kept (Reading.declarations rs) name = some e ∧
      q = ⟨p.kind, some (e.2.context name)⟩) (o.catalog.problems settings.checkNames) found

section Load

variable {settings : LoadSettings} {sources : List Source} {name : String}

theorem Collected.keeps_ofSources (precedence : Precedence) (sources : List Source) :
    (ofSources precedence sources).Keeps precedence
      (Reading.declarations (sources.flatMap Source.readings))
      (Reading.augmentations (sources.flatMap Source.readings)) := by
  rw [ofSources_eq_ofReadings]
  refine keeps_ofReadings precedence fun p hp => ?_
  obtain ⟨source, -, hp⟩ := List.mem_flatMap.1 hp
  exact isBetween_of_mem_readings hp

theorem contains_types_load (settings : LoadSettings) (sources : List Source) (name : String) :
    (load settings sources).catalog.types.contains name =
      (Collected.ofSources settings.duplicates sources).types.contains name := by
  rw [types_load, OrderedMap.contains_eq_isSome, Collected.get?_augmentAll, Option.isSome_map]
  rfl

/-- The diagnostics of a load are those of its sources, of its augmentations and of its catalog. -/
theorem diagnostics_load (settings : LoadSettings) (sources : List Source) :
    (load settings sources).diagnostics =
      (Collected.ofSources settings.duplicates sources).problems ++
        ((Reading.augmentations (sources.flatMap Source.readings)).filter fun e =>
          !(load settings sources).catalog.types.contains e.1.target).map
            (fun e => Collected.unmatched e.1.target e.2) ++
        ((load settings sources).catalog.problems settings.checkNames).map
          (Collected.ofSources settings.duplicates sources).augmentAll.place := by
  simp only [contains_types_load]
  rw [← (Collected.keeps_ofSources settings.duplicates sources).augmentations,
    ← Collected.problems_augmentAll]
  rfl

theorem contains_load_iff :
    (load settings sources).catalog.contains name = true ↔
      name ∈ Reading.names (sources.flatMap Source.readings) := by
  rw [Catalog.contains, contains_types_load, enums_load]
  exact (Collected.keeps_ofSources settings.duplicates sources).contains_iff

/-- A problem of the catalog names a declaration that is kept, and gets the place of that. -/
theorem exists_kept_of_mem_problems {p : Problem}
    (hp : p ∈ (load settings sources).catalog.problems settings.checkNames) :
    ∃ (name : String) (e : Declaration × Origin), p = Catalog.problemIn name p.kind ∧
      settings.duplicates.kept (Reading.declarations (sources.flatMap Source.readings)) name =
        some e ∧
      (Collected.ofSources settings.duplicates sources).augmentAll.place p =
        ⟨p.kind, some (e.2.context name)⟩ := by
  have keeps := Collected.keeps_ofSources settings.duplicates sources
  have built : (load settings sources).catalog.IsBuilt := .load settings sources
  obtain ⟨name, kind, rfl, -, hname⟩ := built.exists_of_mem_problems hp
  have declared : (load settings sources).catalog.contains name = true := by
    rw [Catalog.contains, Bool.or_eq_true]
    rcases hname with ⟨d, hd, rfl⟩ | ⟨e, he, rfl⟩
    · exact .inl (OrderedMap.contains_of_get? (Catalog.type?_of_mem_values built.isKeyed hd))
    · obtain ⟨n, hn⟩ := OrderedMap.exists_get?_of_mem_values he
      rw [enums_load] at hn
      rw [(keeps.holds.enum n e hn).1, enums_load]
      exact .inr (OrderedMap.contains_of_get? hn)
  obtain ⟨e, he⟩ := Precedence.exists_kept_iff.2 (contains_load_iff.1 declared)
  refine ⟨name, e, rfl, he, Collected.place_problemIn ?_ kind⟩
  rw [Collected.origins_augmentAll]
  exact keeps.reflects.origin name e he

/-- No problem of the catalog is one of its sources. -/
theorem isBetween_of_mem_placed {q : Problem}
    (hq : q ∈ ((load settings sources).catalog.problems settings.checkNames).map
      (Collected.ofSources settings.duplicates sources).augmentAll.place) :
    q.kind.isBetween = false := by
  obtain ⟨p, hp, rfl⟩ := List.mem_map.1 hq
  obtain ⟨name, e, -, -, placed⟩ := exists_kept_of_mem_problems hp
  obtain ⟨_, kind, rfl, hkind, -⟩ :=
    (Catalog.IsBuilt.load settings sources).exists_of_mem_problems hp
  rw [placed]
  exact hkind

theorem filter_isDuplicate_diagnostics (settings : LoadSettings) (sources : List Source) :
    (load settings sources).diagnostics.filter (·.kind.isDuplicate) =
      (repeats [] (Reading.declarations (sources.flatMap Source.readings))).map
        fun e => Collected.duplicate e.1.name e.2 := by
  rw [diagnostics_load, List.filter_append, List.filter_append,
    (Collected.keeps_ofSources settings.duplicates sources).duplicates, List.append_assoc]
  refine (congrArg _ ?_).trans (List.append_nil _)
  rw [List.append_eq_nil_iff, List.filter_eq_nil_iff, List.filter_eq_nil_iff]
  constructor
  · rintro _ h
    obtain ⟨e, -, rfl⟩ := List.mem_map.1 h
    exact Bool.false_ne_true
  · intro q hq
    simp [(Bool.or_eq_false_iff.1 (isBetween_of_mem_placed hq)).1]

theorem filter_isUnmatched_diagnostics (settings : LoadSettings) (sources : List Source) :
    (load settings sources).diagnostics.filter (·.kind.isUnmatched) =
      ((Reading.augmentations (sources.flatMap Source.readings)).filter fun e =>
        !(load settings sources).catalog.types.contains e.1.target).map
          fun e => Collected.unmatched e.1.target e.2 := by
  rw [diagnostics_load, List.filter_append, List.filter_append,
    (Collected.keeps_ofSources settings.duplicates sources).unmatched, List.nil_append]
  refine (congrArg₂ _ ?_ ?_).trans (List.append_nil _)
  · rw [List.filter_eq_self]
    rintro _ h
    obtain ⟨e, -, rfl⟩ := List.mem_map.1 h
    rfl
  · rw [List.filter_eq_nil_iff]
    intro q hq
    simp [(Bool.or_eq_false_iff.1 (isBetween_of_mem_placed hq)).2]

/-- Whatever the sources and the settings are, a load keeps of every name one declaration, tells of
the others, and adds all augmentations to the types that it keeps. While it collects declarations,
there are never fewer of them than before. -/
theorem load_keeps (settings : LoadSettings) (sources : List Source) :
    (load settings sources).Keeps settings (sources.flatMap Source.readings) ∧
      sources.foldl (Collected.collect settings.duplicates) ∅ =
        Collected.ofReadings settings.duplicates (sources.flatMap Source.readings) ∧
      ∀ rs more, rs ++ more <+: sources.flatMap Source.readings →
        (Collected.ofReadings settings.duplicates rs).size ≤
          (Collected.ofReadings settings.duplicates (rs ++ more)).size := by
  have keeps := Collected.keeps_ofSources settings.duplicates sources
  have hcontains := contains_types_load settings sources
  refine ⟨?_, Collected.ofSources_eq_ofReadings _ sources, fun rs more hpart => ?_⟩
  · exact {
      contains_iff := fun name => contains_load_iff
      disjoint := fun name ⟨htype, henum⟩ => by
        rw [hcontains] at htype
        rw [enums_load, keeps.holds.disjoint name htype] at henum
        cases henum
      typeName := (Catalog.IsBuilt.load settings sources).isKeyed
      enumName := fun name e he => by
        rw [Catalog.enum?, enums_load] at he
        exact (keeps.holds.enum name e he).1
      type := fun name => by
        rw [Catalog.type?, types_load, Collected.get?_augmentAll, keeps.reflects.types.get?,
          keeps.augmentations]
        rfl
      enum := fun name => by
        rw [Catalog.enum?, enums_load]
        exact keeps.reflects.enums.get? name
      typeOrder := by
        rw [funext hcontains, types_load]
        exact (Collected.order_augmentAll _).trans keeps.reflects.types.order
      enumOrder := by
        rw [enums_load]
        exact keeps.reflects.enums.order
      duplicates := filter_isDuplicate_diagnostics settings sources
      unmatched := filter_isUnmatched_diagnostics settings sources
      unmatchedWarning := fun p hp hkind => by
        have among : p ∈ (load settings sources).diagnostics.filter (·.kind.isUnmatched) :=
          List.mem_filter.2 ⟨hp, hkind⟩
        rw [filter_isUnmatched_diagnostics] at among
        obtain ⟨e, -, rfl⟩ := List.mem_map.1 among
        rfl
      placed := by
        refine ⟨_, _, diagnostics_load settings sources, ?_⟩
        rw [List.forall₂_map_right_iff, List.forall₂_same]
        exact fun p hp => exists_kept_of_mem_problems hp }
  · refine Collected.size_ofReadings_le settings.duplicates fun p hp => ?_
    obtain ⟨source, -, hp⟩ := List.mem_flatMap.1 (hpart.subset hp)
    exact isBetween_of_mem_readings hp

end Load

end ApiCatalog
