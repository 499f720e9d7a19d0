import ApiCatalog.Proofs.KeptDeclarations
import ApiCatalog.Proofs.Layouts
import ApiCatalog.Proofs.PrintableDeclarations
import ApiCatalog.Proofs.SpelledReading

/-!
# The source of a catalog loads as the catalog

The source of a catalog is read as the forms of its declarations, which denote the declarations
again. Each of them is collected under its own name in its own order, and nothing is reported on the
way, so that the load finds the problems of the catalog and no others. All this takes is that no
bracket inside a declaration is in the first column, as it could be only behind a line of more
characters than 32 bits count.

Main statement: `loadText_source`.
-/

namespace ApiCatalog

/-! ### Declarations that were read -/

namespace Declaration

/-- Whether a form of the text denotes the declaration. -/
def IsReadFrom (text : String) (d : Declaration) : Prop :=
  ∃ forms, Form.all text.toList = .ok forms ∧ ∃ f ∈ forms, ofForm? f = .ok (some d)

instance (text : String) (d : Declaration) : Decidable (d.IsReadFrom text) :=
  match h : Form.all text.toList with
  | .ok forms =>
    decidable_of_iff (∃ f ∈ forms, ofForm? f = .ok (some d))
      ⟨fun denoted => ⟨forms, h, denoted⟩, fun ⟨_, h', denoted⟩ => by
        rw [h] at h'
        cases h'
        exact denoted⟩
  | .error _ => isFalse fun ⟨_, h', _⟩ => by
    rw [h] at h'
    cases h'

/-- A declaration that was read is what its form denotes, and its form can be printed. -/
theorem IsReadFrom.toForm {text : String} {d : Declaration} (h : d.IsReadFrom text)
    (hd : d.IsFinite) : ofForm? d.toForm = .ok (some d) ∧ d.toForm.MadeOf Atom.IsPrintable := by
  obtain ⟨forms, hforms, f, hf, denoted⟩ := h
  have expressible := meets_of_ofForm? Parts.expressible_readFrom trivial denoted
  have printable :=
    meets_of_ofForm? Parts.printable_readFrom (Form.madeOf_of_all hforms f hf) denoted
  exact ⟨ofForm?_toForm expressible, madeOf_toForm printable hd⟩

end Declaration

/-- A form denotes the same declaration wherever it stands. -/
theorem Declared.ofForm_of_unplace {f g : Form} {d : Declaration} (h : g.unplace = f.unplace)
    (hf : Declaration.ofForm? f = .ok (some d)) : Declared.ofForm g = .ok ⟨d, g.span⟩ := by
  have hg : Declaration.ofForm? g = .ok (some d) := by
    have same := Declaration.ofForm?_mapSpan (fun _ => .unplaced) g
    rw [← Form.unplace, h, Form.unplace, Declaration.ofForm?_mapSpan, hf] at same
    exact (Meaning.mapSpan_eq_ok _).1 same.symm
  simp [Declared.ofForm, Declaration.ofForm, hg]

/-! ### Collecting -/

/-- The entry of a declaration among the types. -/
def Declaration.typeEntry? : Declaration → Option (String × TypeDeclaration)
  | .type d => some (d.name, d)
  | _ => none

/-- The entry of a declaration among the enumerations. -/
def Declaration.enumEntry? : Declaration → Option (String × Enumeration)
  | .enum d => some (d.name, d)
  | _ => none

namespace Collected

theorem contains_put {s : Collected} {d : Declaration} (hd : ∀ a, d ≠ .augment a)
    (origin : Origin) (name : String) :
    (s.put d origin).contains name = (decide (name = d.name) || s.contains name) := by
  cases d with
  | type d =>
    show ((s.types.insert d.name d).contains name || s.enums.contains name) = _
    rw [OrderedMap.contains_insert, Bool.or_assoc]
    rfl
  | enum d =>
    show (s.types.contains name || (s.enums.insert d.name d).contains name) = _
    rw [OrderedMap.contains_insert, Bool.or_left_comm]
    rfl
  | augment a => exact absurd rfl (hd a)

theorem add_of_new {s : Collected} {d : Declaration} (hd : ∀ a, d ≠ .augment a)
    (new : s.contains d.name = false) (precedence : Precedence) (origin : Origin) :
    s.add precedence d origin = s.put d origin := by
  rw [add_eq hd, if_neg (by simp [new])]

/-- Declarations with new and different names are put in one after the other. -/
theorem foldl_add_of_nodup {s : Collected} {es : List (Declaration × Origin)}
    (hes : ∀ e ∈ es, ∀ a, e.1 ≠ .augment a) (distinct : (es.map (·.1.name)).Nodup)
    (new : ∀ e ∈ es, s.contains e.1.name = false) (precedence : Precedence) :
    let t := es.foldl (fun s e => s.add precedence e.1 e.2) s
    t.types = ((es.map (·.1)).filterMap Declaration.typeEntry?).foldl
        (fun m e => m.insert e.1 e.2) s.types ∧
      t.enums = ((es.map (·.1)).filterMap Declaration.enumEntry?).foldl
        (fun m e => m.insert e.1 e.2) s.enums ∧
      t.augmentations = s.augmentations ∧ t.problems = s.problems := by
  induction es generalizing s with
  | nil => exact ⟨rfl, rfl, rfl, rfl⟩
  | cons e es ih =>
    obtain ⟨d, origin⟩ := e
    rw [List.forall_mem_cons] at hes new
    obtain ⟨fresh, distinct⟩ := List.nodup_cons.1 distinct
    have rest := ih (s := s.put d origin) hes.2 distinct fun e he => by
      rw [contains_put hes.1, new.2 e he, Bool.or_false, decide_eq_false_iff_not]
      exact fun same => fresh (List.mem_map.2 ⟨e, he, same⟩)
    rw [List.foldl_cons, add_of_new hes.1 new.1]
    cases d with
    | type d => exact rest
    | enum d => exact rest
    | augment a => exact absurd rfl (hes.1 a)

/-- Forms that denote declarations add them, each where its form stands. -/
theorem exists_foldl_addForm (precedence : Precedence) (source : Source) {ds : List Declaration}
    {gs : List Form} (hgs : gs.map Form.unplace = (ds.map Declaration.toForm).map Form.unplace)
    (hds : ∀ d ∈ ds, Declaration.ofForm? d.toForm = .ok (some d)) :
    ∃ es : List (Declaration × Origin), es.map (·.1) = ds ∧ ∀ s : Collected,
      gs.foldl (addForm precedence source) s =
        es.foldl (fun s e => s.add precedence e.1 e.2) s := by
  induction ds generalizing gs with
  | nil =>
    obtain rfl := List.map_eq_nil_iff.1 hgs
    exact ⟨[], rfl, fun _ => rfl⟩
  | cons d ds ih =>
    obtain ⟨g, gs, rfl, hg, hgs⟩ := List.map_eq_cons_iff.1 hgs
    rw [List.forall_mem_cons] at hds
    obtain ⟨es, hes, rest⟩ := ih hgs hds.2
    refine ⟨(d, ⟨source.name, g.span⟩) :: es, by rw [List.map_cons, hes], fun s => ?_⟩
    rw [List.foldl_cons, List.foldl_cons, addForm, Declared.ofForm_of_unplace hg hds.1, rest]

end Collected

/-! ### Loading -/

namespace Collected

theorem length_problems_foldl_le {α : Type} {f : Collected → α → Collected}
    (h : ∀ s x, s.problems.length ≤ (f s x).problems.length) (s : Collected) (xs : List α) :
    s.problems.length ≤ (xs.foldl f s).problems.length := by
  induction xs generalizing s with
  | nil => exact Nat.le_refl _
  | cons x xs ih => exact Nat.le_trans (h s x) (ih _)

theorem length_problems_addForm_le (precedence : Precedence) (source : Source) (s : Collected)
    (f : Form) : s.problems.length ≤ (s.addForm precedence source f).problems.length := by
  unfold addForm
  split
  · rename_i d _
    by_cases hd : ∀ a, d.declaration ≠ .augment a
    · rw [problems_add hd]
      simp
    · obtain ⟨a, ha⟩ := Classical.not_forall_not.1 hd
      rw [ha]
      exact Nat.le_refl _
  · simp [report]

theorem problems_foldl_report {α : Type} (problem : α → Problem) (s : Collected) (xs : List α) :
    (xs.foldl (fun s x => s.report (problem x)) s).problems = s.problems ++ xs.map problem := by
  induction xs generalizing s with
  | nil => exact (List.append_nil _).symm
  | cons x xs ih => rw [List.foldl_cons, ih, report, List.append_assoc, List.map_cons]; rfl

/-- The faults of a text are told besides the problems of the catalog. -/
theorem length_faults_le (settings : LoadSettings) (source : Source) :
    (Form.allRecovering source.text.toList).2.length +
        ((load settings [source]).catalog.problems settings.checkNames).length ≤
      (load settings [source]).diagnostics.length := by
  have faults := problems_foldl_report (source.locate · none) ∅
    (Form.allRecovering source.text.toList).2
  have forms := length_problems_foldl_le (length_problems_addForm_le settings.duplicates source)
    ((Form.allRecovering source.text.toList).2.foldl
      (fun s p => s.report (source.locate p none)) ∅) (Form.allRecovering source.text.toList).1
  rw [faults, List.length_append, List.length_map] at forms
  simp only [load, List.foldl_cons, List.foldl_nil, collect, problems_augmentAll,
    List.length_append, List.length_map]
  omega

end Collected

/-- The problem without the source, line and column of its place. -/
def Problem.unlocated (p : Problem) : Problem :=
  { p with context := p.context.map fun c => { declaration := c.declaration } }

theorem Collected.unlocated_place (s : Collected) (p : Problem) :
    (s.place p).unlocated = p.unlocated := by
  obtain ⟨kind, context⟩ := p
  unfold place
  split
  · rfl
  · rename_i origin horigin
    cases context with
    | none => cases horigin
    | some c => rfl

namespace Catalog

/-- The declarations of a catalog, types before enumerations. -/
def declarations (c : Catalog) : List Declaration :=
  c.types.values.map .type ++ c.enums.values.map .enum

theorem source_eq (c : Catalog) :
    c.source = Form.document {} (c.declarations.map Declaration.toForm) := by
  rw [source, declarations, List.map_append, List.map_map, List.map_map]
  rfl

/-- Maps of declarations that were read from texts, without a number that is not finite: each of
them stands under its own name, and no name is in both maps. -/
structure AreWritten (types : OrderedMap TypeDeclaration) (enums : OrderedMap Enumeration) :
    Prop where
  typesConsistent : types.IsConsistent
  enumsConsistent : enums.IsConsistent
  typesKeyed : types.IsKeyed TypeDeclaration.name
  enumsKeyed : enums.IsKeyed Enumeration.name
  disjoint : ∀ name, types.contains name = true → enums.contains name = false
  typeRead : ∀ d ∈ types.values, ∃ text, (Declaration.type d).IsReadFrom text
  enumRead : ∀ d ∈ enums.values, d.IsFinite ∧ ∃ text, (Declaration.enum d).IsReadFrom text

namespace AreWritten

variable {types : OrderedMap TypeDeclaration} {enums : OrderedMap Enumeration}
  (h : AreWritten types enums)
include h

theorem toForm {d : Declaration} (hd : d ∈ (ofMaps types enums).declarations) :
    Declaration.ofForm? d.toForm = .ok (some d) ∧ d.toForm.MadeOf Atom.IsPrintable := by
  rcases List.mem_append.1 hd with hd | hd
  · obtain ⟨e, he, rfl⟩ := List.mem_map.1 hd
    obtain ⟨text, read⟩ := h.typeRead e he
    exact read.toForm trivial
  · obtain ⟨e, he, rfl⟩ := List.mem_map.1 hd
    obtain ⟨finite, text, read⟩ := h.enumRead e he
    exact read.toForm finite

theorem nodup_names : ((ofMaps types enums).declarations.map (·.name)).Nodup := by
  have names : (ofMaps types enums).declarations.map (·.name) = types.order ++ enums.order := by
    rw [declarations, List.map_append, List.map_map, List.map_map,
      ← h.typesKeyed.map_values h.typesConsistent, ← h.enumsKeyed.map_values h.enumsConsistent]
    rfl
  rw [names, List.nodup_append]
  refine ⟨h.typesConsistent.nodup, h.enumsConsistent.nodup, ?_⟩
  rintro name htype _ henum rfl
  rw [h.typesConsistent.mem_iff] at htype
  rw [h.enumsConsistent.mem_iff, h.disjoint name htype] at henum
  cases henum

theorem filterMap_typeEntry? :
    (ofMaps types enums).declarations.filterMap Declaration.typeEntry? = types.toList := by
  have ofType : Declaration.typeEntry? ∘ Declaration.type = fun d => some (d.name, d) := rfl
  have ofEnum : Declaration.typeEntry? ∘ Declaration.enum = fun _ => none := rfl
  rw [declarations, List.filterMap_append, List.filterMap_map, List.filterMap_map, ofType, ofEnum,
    h.typesKeyed.toList_eq]
  simp [ofMaps]

theorem filterMap_enumEntry? :
    (ofMaps types enums).declarations.filterMap Declaration.enumEntry? = enums.toList := by
  have ofType : Declaration.enumEntry? ∘ Declaration.type = fun _ => none := rfl
  have ofEnum : Declaration.enumEntry? ∘ Declaration.enum = fun d => some (d.name, d) := rfl
  rw [declarations, List.filterMap_append, List.filterMap_map, List.filterMap_map, ofType, ofEnum,
    h.enumsKeyed.toList_eq]
  simp [ofMaps]

/-- The source is read as the forms of the declarations. -/
theorem readsAs_source : Form.ReadsAs (ofMaps types enums).source.toList
    ((ofMaps types enums).declarations.map Declaration.toForm) := by
  rw [source_eq]
  exact Form.readsAs_document (List.forall_mem_map.2 fun d hd => (h.toForm hd).2) {}

/-- Columns that fit leave no bracket inside a declaration in the first one. -/
theorem noneBeginsInside_source (columns : ColumnsFit (ofMaps types enums).source.toList) :
    Form.NoneBeginsInside (ofMaps types enums).source.toList := by
  rw [← Form.recoversAs_iff h.readsAs_source]
  rw [source_eq] at columns ⊢
  exact Form.recoversAs_document (List.forall_mem_map.2 fun d hd => (h.toForm hd).2)
    (LayoutStyle.indents_of_le (by decide) (by decide)) columns

/-- The declarations are collected from the source as they were, and nothing else is. -/
theorem collect_source (name : String)
    (none : Form.NoneBeginsInside (ofMaps types enums).source.toList) :
    let s := Collected.collect .keepFirst ∅ ⟨name, (ofMaps types enums).source⟩
    s.types = types ∧ s.enums = enums ∧ s.augmentations = [] ∧ s.problems = [] := by
  obtain ⟨gs, hgs, read⟩ := (Form.recoversAs_iff h.readsAs_source).2 none
  obtain ⟨es, hes, add⟩ := Collected.exists_foldl_addForm .keepFirst
    ⟨name, (ofMaps types enums).source⟩ hgs fun d hd => (h.toForm hd).1
  -- no name comes twice and nothing is there before, so every declaration is put in
  have distinct := h.nodup_names
  rw [← hes, List.map_map] at distinct
  have named : ∀ e ∈ es, ∀ a, e.1 ≠ .augment a := by
    intro e he a same
    have hd : e.1 ∈ (ofMaps types enums).declarations := hes ▸ List.mem_map_of_mem he
    simp [same, declarations] at hd
  obtain ⟨hTypes, hEnums, augmentations, problems⟩ :=
    Collected.foldl_add_of_nodup (s := ∅) named distinct (fun _ _ => rfl) .keepFirst
  rw [hes, h.filterMap_typeEntry?] at hTypes
  rw [hes, h.filterMap_enumEntry?] at hEnums
  have collected : Collected.collect .keepFirst ∅ ⟨name, (ofMaps types enums).source⟩ =
      es.foldl (fun s e => s.add .keepFirst e.1 e.2) ∅ := by
    rw [Collected.collect, read]
    exact add ∅
  rw [collected]
  exact ⟨hTypes.trans (OrderedMap.ofList_toList h.typesConsistent),
    hEnums.trans (OrderedMap.ofList_toList h.enumsConsistent), augmentations, problems⟩

end AreWritten

end Catalog

/-- Whether the source of a catalog loads as the catalog, with the problems of the catalog in their
order and no others, apart from the places of the declarations. -/
def Catalog.IsReloaded (c : Catalog) : Prop :=
  (loadText c.source).catalog = c ∧
    (loadText c.source).diagnostics.map Problem.unlocated =
      (c.problems false).map Problem.unlocated

namespace Catalog.AreWritten

variable {types : OrderedMap TypeDeclaration} {enums : OrderedMap Enumeration}
  (h : AreWritten types enums)
include h

theorem isReloaded (none : Form.NoneBeginsInside (ofMaps types enums).source.toList) :
    (ofMaps types enums).IsReloaded := by
  obtain ⟨hTypes, hEnums, augmentations, problems⟩ := h.collect_source inputName none
  -- without augmentations the collected types are those of the catalog
  have merged : (Collected.collect .keepFirst ∅
      ⟨inputName, (ofMaps types enums).source⟩).augmentAll =
      Collected.collect .keepFirst ∅ ⟨inputName, (ofMaps types enums).source⟩ := by
    rw [Collected.augmentAll, augmentations]
    rfl
  simp only [IsReloaded, loadText, load, List.foldl_cons, List.foldl_nil, merged, hTypes, hEnums,
    problems, List.nil_append, List.map_map]
  exact ⟨trivial, List.map_congr_left fun p _ => Collected.unlocated_place _ p⟩

end Catalog.AreWritten

/-- A catalog that is reloaded from its source has been read there without a fault: each fault would
be a problem too many. -/
theorem Catalog.IsReloaded.noneBeginsInside {c : Catalog} (h : c.IsReloaded) :
    Form.NoneBeginsInside c.source.toList := by
  have told := congrArg List.length h.2
  have faults : (Form.allRecovering c.source.toList).2.length + _ ≤ _ :=
    Collected.length_faults_le {} ⟨inputName, c.source⟩
  rw [List.length_map, List.length_map] at told
  have unchecked : ({} : LoadSettings).checkNames = false := rfl
  rw [← loadText, told, h.1, unchecked] at faults
  have none : (Form.allRecovering c.source.toList).2 = [] := List.length_eq_zero_iff.1 (by omega)
  exact (Form.allRecovering_eq_iff_all.1 (Prod.ext rfl none)).2

end ApiCatalog
