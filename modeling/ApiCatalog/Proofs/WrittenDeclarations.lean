import ApiCatalog.Proofs.Collecting
import ApiCatalog.Proofs.ExpressibleDeclarations

/-!
# Which declarations of a load can be written

A load makes declarations of forms and then adds the members of augmentations to types. A form
of a typedef has no members, but an augmentation may have a typedef as its target. The typedef
that it gives members to is written with them, and is not read again; every other declaration of
a load is what its form denotes.

Main statement: `load_written_declarations_read_back`.
-/

namespace ApiCatalog

/-! ### Typedefs with members -/

theorem foldlM_append_eq_error {α β : Type} {k : α → β → Meaning α} {xs ys : List β} {a b : α}
    {e : FaultAt} (hxs : xs.foldlM k a = .ok b) (hys : ys.foldlM k b = .error e) :
    (xs ++ ys).foldlM k a = .error e := by
  rw [List.foldlM_append, hxs, Meaning.ok_bind, hys]

/-- The form of a typedef with members has a clause that no typedef takes. -/
theorem TypeDeclaration.ofForm?_toForm_of_members {d : TypeDeclaration} (h : d.Meets .expressible)
    (hkind : d.kind = .typedef) (hmembers : d.members ≠ []) :
    Declaration.ofForm? d.toForm = .error ⟨.unknownClause "typedef" "members", .unplaced⟩ := by
  have plain : isPlainName d.name = true := h.name
  have split := Form.clauses_flatMap .unplaced d.clauseList_nodup
  obtain ⟨t, ht⟩ := Option.isSome_iff_exists.1 (h.aliased_iff.2 hkind)
  have htype : TypeExpr.ofForm t.toForm = .ok t := TypeExpr.ofForm_toForm t (h.aliased t ht)
  have clauses : d.clauseList.foldlM addClause (ofTypedef d.name t) =
      .error ⟨.unknownClause "typedef" "members", .unplaced⟩ := by
    obtain ⟨parent, capabilities, template⟩ := h.typedef hkind
    have annotations := foldlM_annotations (ofTypedef d.name t) d.see h.deprecated
    simp only [clauseList, parent, capabilities, template, hkind]
    refine foldlM_append_eq_error annotations ?_
    simp [optionalClause, hmembers, addClause, ofTypedef, Form.reject, Member.vector, Form.vector,
      Form.span, TypeKind.name]
  rw [ofForm?_toForm, toForm_eq_list]
  simp only [ofForm, Form.expectHead_list, Form.takeName_symbol plain, Form.span_list,
    Meaning.ok_bind, hkind, ht]
  simp [htype, split, clauses]

/-! ### Declarations of a load -/

namespace Collected

variable {precedence : Precedence} {sources : List Source}

/-- Everything that is collected meets the demands on what can be written. -/
theorem holds_expressible :
    (ofSources precedence sources).Holds (Declaration.Meets .expressible) :=
  holds_ofSources (Declaration.meets_of_ofForm? Parts.expressible_readFrom trivial) _ _

/-- A type is collected without the members that augmentations add to it. -/
theorem exists_of_get?_augmentAll {name : String} {d : TypeDeclaration}
    (h : (ofSources precedence sources).augmentAll.types.get? name = some d) :
    d.name = name ∧ d.Meets .expressible ∧
      (d.kind = .typedef →
        d.members = addedMembers (ofSources precedence sources).augmentations name) := by
  rw [get?_augmentAll] at h
  obtain ⟨e, he, rfl⟩ := Option.map_eq_some_iff.1 h
  obtain ⟨hname, hmeets, htypedef⟩ := holds_expressible.type name e he
  have added : ∀ m ∈ addedMembers (ofSources precedence sources).augmentations name,
      m.Meets .expressible := by
    intro m hm
    obtain ⟨a, ha, hm⟩ := List.mem_flatMap.1 hm
    exact (holds_expressible.augmentation a (List.mem_filter.1 ha).1).members m hm
  refine ⟨hname, hmeets.addMembers added, fun hkind => ?_⟩
  show e.members ++ _ = _
  rw [htypedef hkind, List.nil_append]

end Collected

theorem addedMembers_eq_nil_iff {augmentations : List (Augmentation × Origin)} {name : String} :
    Collected.addedMembers augmentations name = [] ↔
      ∀ e ∈ augmentations, e.1.target = name → e.1.members = [] := by
  simp [Collected.addedMembers, List.flatMap_eq_nil_iff]

/-- A type of a load is what its form denotes, unless it is a typedef that an augmentation gives
members to: the form of such a typedef denotes nothing. An enumeration of a load always is what
its form denotes. -/
theorem load_written_declarations_read_back (settings : LoadSettings) (sources : List Source) :
    (∀ d ∈ (load settings sources).catalog.types.values,
      Declaration.ofForm? d.toForm =
        if d.kind = .typedef ∧
            ∃ e ∈ (Collected.ofSources settings.duplicates sources).augmentations,
              e.1.target = d.name ∧ e.1.members ≠ [] then
          .error ⟨.unknownClause "typedef" "members", .unplaced⟩
        else .ok (some (.type d))) ∧
    ∀ d ∈ (load settings sources).catalog.enums.values,
      Declaration.ofForm? d.toForm = .ok (some (.enum d)) := by
  constructor
  · intro d hd
    rw [types_load] at hd
    obtain ⟨name, hname⟩ := OrderedMap.exists_get?_of_mem_values hd
    obtain ⟨rfl, hmeets, hmembers⟩ := Collected.exists_of_get?_augmentAll hname
    split
    · rename_i added
      obtain ⟨hkind, e, he, htarget, hne⟩ := added
      refine TypeDeclaration.ofForm?_toForm_of_members hmeets hkind ?_
      rw [hmembers hkind, Ne, addedMembers_eq_nil_iff]
      exact fun none => hne (none e he htarget)
    · rename_i unchanged
      refine (TypeDeclaration.ofForm?_toForm_iff hmeets).2 fun hkind => ?_
      rw [hmembers hkind, addedMembers_eq_nil_iff]
      intro e he htarget
      by_contra hne
      exact unchanged ⟨hkind, e, he, htarget, hne⟩
  · intro d hd
    rw [enums_load] at hd
    obtain ⟨name, hname⟩ := OrderedMap.exists_get?_of_mem_values hd
    exact Enumeration.ofForm?_toForm (Collected.holds_expressible.enum name d hname).2

/-- An augmented typedef is written in a form that denotes nothing. -/
theorem load_augmented_typedef :
    ¬ ∀ d ∈ (load {} [⟨inputName,
        "(typedef: T number)\n(augment: T :members [(property x number)])"⟩]).catalog.types.values,
      Declaration.ofForm? d.toForm = .ok (some (.type d)) := by
  decide +kernel

end ApiCatalog
