import ApiCatalog.Proofs.Expansion

/-!
# Assignability through aliases

A comparison follows the alias that a type refers to and goes on with the type that the alias
stands for. So it finds in a type what it would find in the expansion, with these exceptions.
Qualifiers around a reference are dropped with it. An alternative of a union that is a reference
counts as one that null belongs to. An alias of the type of all values is not taken for that type,
nor an alias of the type of no values for that one. And a type is assignable to itself without
being looked into, which two spellings of one type may not be to each other.

`Catalog.IsFaithful` says that none of this happens at a type, and `Catalog.IsTransparent` that it
happens at none of the types that comparisons come to.

Main statement: `Catalog.isAssignable_expanded`.
-/

namespace ApiCatalog

namespace TypeExpr

/-- The alternatives of a union, whatever its qualifiers. -/
def alternatives (t : TypeExpr) : List TypeExpr :=
  match t.bare with
  | .union alternatives => alternatives
  | _ => []

/-- The names of the fields of a record, whatever its qualifiers. -/
def fieldNames (t : TypeExpr) : List String :=
  match t.bare with
  | .record fields => fields.map (·.1)
  | _ => []

/-- What a function returns, whatever its qualifiers. -/
def returns? (t : TypeExpr) : Option TypeExpr :=
  match t.bare with
  | .function _ returns => some returns
  | _ => none

theorem mem_components_of_returns? {t r : TypeExpr} (h : r ∈ t.returns?) : r ∈ t.components := by
  unfold returns? at h
  split at h
  · rename_i hbare
    rw [← components_bare, hbare, ← Option.some.inj h]
    exact List.mem_cons_self
  · cases h

theorem anyNullable_iff {ts : List TypeExpr} :
    anyNullable ts = true ↔ ∃ t ∈ ts, t.isNullable = true := by
  induction ts with
  | nil => simp [anyNullable]
  | cons t ts ih => simp [anyNullable, ih]

end TypeExpr

namespace Catalog

variable {c : Catalog} {s s' t t' x y : TypeExpr}

/-! ### Transparent types -/

/-- The types that comparisons of a type come to: the type itself, and those that comparisons of
the components of what it stands for come to. -/
inductive ComesTo (c : Catalog) : TypeExpr → TypeExpr → Prop
  | self (t : TypeExpr) : ComesTo c t t
  | component {t x p : TypeExpr} (hx : x ∈ (c.dealiased t).components) (h : ComesTo c x p) :
    ComesTo c t p

/-- Whether comparisons find the same in a type as in its expansion, whether null belongs to it
aside. -/
structure IsShapeFaithful (c : Catalog) (t : TypeExpr) : Prop where
  /-- Whether every value is one of the type does not depend on an alias. -/
  acceptsAll : acceptsAll t = acceptsAll (c.expanded t)
  /-- Null belongs to a union if it belongs to an alternative. -/
  alternatives : TypeExpr.anyNullable (c.expanded t).alternatives = true →
    (c.dealiased t).isNullable = true
  /-- No two fields of a record have the same name. -/
  fields : (c.expanded t).fieldNames.Nodup
  /-- What a function returns is not an alias of the type of no values. -/
  returns : ∀ r ∈ (c.dealiased t).returns?, (c.expanded r).isVoid = r.isVoid

/-- Whether comparisons find the same in a type as in its expansion. -/
structure IsFaithful (c : Catalog) (t : TypeExpr) : Prop extends c.IsShapeFaithful t where
  /-- Null belongs to what the type stands for if and only if it belongs to the expansion. -/
  nullable : (c.dealiased t).isNullable = (c.expanded t).isNullable

instance : Decidable (c.IsFaithful t) :=
  decidable_of_iff (_ ∧ _ ∧ _ ∧ _ ∧ _)
    ⟨fun ⟨hall, halternatives, hfields, hreturns, hnull⟩ =>
      ⟨⟨hall, halternatives, hfields, hreturns⟩, hnull⟩,
     fun h => ⟨h.acceptsAll, h.alternatives, h.fields, h.returns, h.nullable⟩⟩

/-- Whether comparisons of a type find the same in all types that they come to as in their
expansions. -/
def IsTransparent (c : Catalog) (t : TypeExpr) : Prop := ∀ p, c.ComesTo t p → c.IsFaithful p

/-- What remains of transparency once a reference has been followed. -/
structure IsTransparentInside (c : Catalog) (t : TypeExpr) : Prop extends c.IsShapeFaithful t where
  components : ∀ x ∈ (c.dealiased t).components, c.IsTransparent x

theorem isTransparent_iff :
    c.IsTransparent t ↔ c.IsFaithful t ∧ ∀ x ∈ (c.dealiased t).components, c.IsTransparent x := by
  refine ⟨fun h => ⟨h t (.self t), fun x hx p hp => h p (.component hx hp)⟩, ?_⟩
  rintro ⟨h, hx⟩ p (_ | ⟨hmem, hp⟩)
  · exact h
  · exact hx _ hmem p hp

theorem IsTransparent.of_components (ts : List TypeExpr) (h : c.IsFaithful t)
    (hts : (c.dealiased t).components = ts) (hx : ∀ x ∈ ts, c.IsTransparent x) :
    c.IsTransparent t :=
  isTransparent_iff.2 ⟨h, hts ▸ hx⟩

theorem IsTransparent.isFaithful (h : c.IsTransparent t) : c.IsFaithful t :=
  (isTransparent_iff.1 h).1

theorem IsTransparent.inside (h : c.IsTransparent t) : c.IsTransparentInside t where
  toIsShapeFaithful := h.isFaithful.toIsShapeFaithful
  components := (isTransparent_iff.1 h).2

/-! ### Types with the same expansion -/

/-- Whether two types differ in nothing but how they are written, as far as comparisons see. -/
structure LooksLike (c : Catalog) (s t : TypeExpr) : Prop where
  left : c.IsTransparentInside s
  right : c.IsTransparentInside t
  bare : (c.expanded s).bare = (c.expanded t).bare
  nullable : (c.dealiased s).isNullable = (c.dealiased t).isNullable

theorem IsTransparent.looksLike (hx : c.IsTransparent x) (hy : c.IsTransparent y)
    (h : c.expanded x = c.expanded y) : c.LooksLike x y where
  left := hx.inside
  right := hy.inside
  bare := congrArg _ h
  nullable := by rw [hx.isFaithful.nullable, hy.isFaithful.nullable, h]

theorem LooksLike.symm (h : c.LooksLike s t) : c.LooksLike t s :=
  ⟨h.right, h.left, h.bare.symm, h.nullable.symm⟩

theorem LooksLike.levels_eq (h : c.LooksLike s t) :
    (c.expanded s).levels = (c.expanded t).levels := by
  rw [← TypeExpr.levels_bare, h.bare, TypeExpr.levels_bare]

theorem LooksLike.acceptsAll_eq (h : c.LooksLike s t) :
    Catalog.acceptsAll s = Catalog.acceptsAll t := by
  rw [h.left.acceptsAll, h.right.acceptsAll]
  unfold Catalog.acceptsAll
  rw [h.bare]

/-- Whether a type looks like another one or like one of its alternatives, and null belongs to it
only if it does there. -/
inductive OccursIn (c : Catalog) (s : TypeExpr) : TypeExpr → Prop
  | here {t : TypeExpr} (h : (c.expanded s).bare = (c.expanded t).bare)
      (hnull : (c.dealiased s).isNullable = true → (c.dealiased t).isNullable = true) :
    OccursIn c s t
  | alternative {t y : TypeExpr} {ts : List TypeExpr} (ht : (c.dealiased t).bare = .union ts)
      (hy : y ∈ ts) (h : OccursIn c s y) : OccursIn c s t

section NoLoop

variable (hloop : c.HasNoAliasLoop)
include hloop

theorem levels_expanded_dealiased (t : TypeExpr) :
    (c.expanded (c.dealiased t)).levels = (c.expanded t).levels := by
  rw [← TypeExpr.levels_bare, bare_expanded_dealiased hloop, TypeExpr.levels_bare]

theorem levels_expanded_lt (h : x ∈ (c.dealiased t).components) :
    (c.expanded x).levels < (c.expanded t).levels := by
  refine TypeExpr.levels_lt_of_mem_components ?_
  rw [components_expanded hloop]
  exact List.mem_map_of_mem h

theorem bare_expanded_of_union {ts : List TypeExpr} (h : (c.dealiased t).bare = .union ts) :
    (c.expanded t).bare = .union (ts.map c.expanded) := by
  rw [bare_expanded hloop, h, expanded, TypeExpr.substitute, TypeExpr.substituteAll_eq]
  rfl

theorem bare_expanded_of_record {fs : List (String × TypeExpr)}
    (h : (c.dealiased t).bare = .record fs) :
    (c.expanded t).bare = .record (fs.map fun e => (e.1, c.expanded e.2)) := by
  rw [bare_expanded hloop, h, expanded, TypeExpr.substitute, TypeExpr.substituteFields_eq]
  rfl

theorem IsShapeFaithful.alike (h : c.IsShapeFaithful t) :
    Alike (fun x e => x ∈ (c.dealiased t).components ∧ c.expanded x = e) (c.dealiased t).bare
      (c.expanded t).bare := by
  refine alike_expanded hloop fun ps r hr => h.returns r ?_
  rw [TypeExpr.returns?, hr]
  rfl

/-- What types with the same expansion stand for is alike. -/
theorem IsTransparentInside.alike (hs : c.IsTransparentInside s) (ht : c.IsTransparentInside t)
    (h : (c.expanded s).bare = (c.expanded t).bare) :
    Alike (fun x y => (x ∈ (c.dealiased s).components ∧ y ∈ (c.dealiased t).components) ∧
      c.LooksLike x y) (c.dealiased s).bare (c.dealiased t).bare := by
  have hs' := hs.toIsShapeFaithful.alike hloop
  rw [h] at hs'
  refine (hs'.join (ht.toIsShapeFaithful.alike hloop)).mono ?_
  rintro x y ⟨_, ⟨hx, rfl⟩, hy, same⟩
  exact ⟨⟨hx, hy⟩, (hs.components x hx).looksLike (ht.components y hy) same.symm⟩

theorem IsTransparentInside.acceptsAll_dealiased (h : c.IsTransparentInside t) :
    Catalog.acceptsAll (c.dealiased t) = Catalog.acceptsAll t := by
  rw [h.acceptsAll]
  exact (h.toIsShapeFaithful.alike hloop).acceptsAll_eq

theorem IsTransparentInside.dealiased (h : c.IsTransparentInside t) :
    c.IsTransparentInside (c.dealiased t) where
  acceptsAll := by
    rw [h.acceptsAll_dealiased hloop, h.acceptsAll]
    unfold Catalog.acceptsAll
    rw [bare_expanded_dealiased hloop]
  alternatives := by
    rw [TypeExpr.alternatives, bare_expanded_dealiased hloop, dealiased_dealiased]
    exact h.alternatives
  fields := by
    rw [TypeExpr.fieldNames, bare_expanded_dealiased hloop]
    exact h.fields
  returns := by
    rw [dealiased_dealiased]
    exact h.returns
  components := by
    rw [dealiased_dealiased]
    exact h.components

theorem LooksLike.dealiased (h : c.LooksLike s t) :
    c.LooksLike (c.dealiased s) (c.dealiased t) where
  left := h.left.dealiased hloop
  right := h.right.dealiased hloop
  bare := by rw [bare_expanded_dealiased hloop, bare_expanded_dealiased hloop, h.bare]
  nullable := by rw [dealiased_dealiased, dealiased_dealiased, h.nullable]

/-! ### A type among the alternatives of another -/

theorem OccursIn.nullable (h : c.OccursIn s t) (ht : c.IsTransparentInside t)
    (hnull : (c.dealiased s).isNullable = true) : (c.dealiased t).isNullable = true := by
  induction h with
  | here _ himp => exact himp hnull
  | @alternative t y ts hts hy _ ih =>
    have hy' : c.IsTransparent y := ht.components y (by rwa [TypeExpr.components_of_union hts])
    refine ht.alternatives ?_
    rw [TypeExpr.alternatives, bare_expanded_of_union hloop hts]
    refine TypeExpr.anyNullable_iff.2 ⟨_, List.mem_map_of_mem hy, ?_⟩
    rw [← hy'.isFaithful.nullable]
    exact ih hy'.inside

theorem OccursIn.dealiased_left (h : c.OccursIn s t) : c.OccursIn (c.dealiased s) t := by
  induction h with
  | here h hnull =>
    exact .here (by rw [bare_expanded_dealiased hloop, h]) (by rwa [dealiased_dealiased])
  | alternative ht hy _ ih => exact .alternative ht hy ih

theorem OccursIn.dealiased_right (h : c.OccursIn s t) : c.OccursIn s (c.dealiased t) := by
  cases h with
  | here h hnull =>
    exact .here (by rw [bare_expanded_dealiased hloop, h]) (by rwa [dealiased_dealiased])
  | alternative ht hy h => exact .alternative (by rwa [dealiased_dealiased]) hy h

/-- The alternatives of a union occur where the union does. -/
theorem OccursIn.of_mem {ts : List TypeExpr} (h : c.OccursIn s t) (hs : c.IsTransparentInside s)
    (ht : c.IsTransparentInside t) (hts : (c.dealiased s).bare = .union ts) (hx : x ∈ ts) :
    c.OccursIn x t := by
  induction h with
  | @here t h _ =>
    have alike := hs.alike hloop ht h
    rw [hts] at alike
    generalize hbare : (c.dealiased t).bare = b at alike
    cases alike with
    | union hR =>
      obtain ⟨y, hy, _, same⟩ := exists_of_forall₂ hR.flip x hx
      exact .alternative hbare hy (.here same.bare (same.nullable ▸ id))
  | @alternative t y us hus hy _ ih =>
    exact .alternative hus hy
      (ih (ht.components y (by rwa [TypeExpr.components_of_union hus])).inside)

/-- A transparent type is assignable to those that it occurs in. -/
theorem OccursIn.isAssignableWithin {room : Nat} (h : c.OccursIn s t)
    (hs : c.IsTransparentInside s) (ht : c.IsTransparentInside t)
    (hroom : (c.expanded s).levels + (c.expanded t).levels < room) :
    c.isAssignableWithin room s t = true := by
  induction room generalizing s t with
  | zero => omega
  | succ room ih =>
    rw [isAssignableWithin_succ_iff]
    by_cases hall : acceptsAll t = true
    · exact .all hall
    refine .fits (h.nullable hloop ht) ?_
    have levelsₛ := levels_expanded_dealiased hloop s
    have levelsₜ := levels_expanded_dealiased hloop t
    -- The alternatives of the source come first, as they do in a comparison.
    by_cases hunion : ∃ ts, (c.dealiased s).bare = .union ts
    · obtain ⟨ts, hts⟩ := hunion
      refine .alternatives hts fun x hx => ?_
      have hmem : x ∈ (c.dealiased s).components := by rwa [TypeExpr.components_of_union hts]
      have less := levels_expanded_lt hloop hmem
      exact ih ((h.of_mem hloop hs ht hts hx).dealiased_right hloop) (hs.components x hmem).inside
        (ht.dealiased hloop) (by omega)
    · cases h with
      | @alternative _ y us hus hy h =>
        refine .alternative (fun ts hts => hunion ⟨ts, hts⟩) hus hy ?_
        have hmem : y ∈ (c.dealiased t).components := by rwa [TypeExpr.components_of_union hus]
        have less := levels_expanded_lt hloop hmem
        exact ih (h.dealiased_left hloop) (hs.dealiased hloop) (ht.components y hmem).inside
          (by omega)
      | here h hnull =>
        have alike := (hs.alike hloop ht h).mono (S := fun x y =>
          c.isAssignableWithin room x y = true ∧ c.isAssignableWithin room y x = true) ?_
        · refine .of_alike alike (fun ts hts => hunion ⟨ts, hts⟩) ?_ ?_
          · rw [ht.acceptsAll_dealiased hloop]
            simpa using hall
          · intro fs hfs
            simpa [TypeExpr.fieldNames, bare_expanded_of_record hloop hfs, Function.comp_def]
              using ht.fields
        · rintro x y ⟨⟨hx, hy⟩, same⟩
          have less := levels_expanded_lt hloop hx
          have less' := levels_expanded_lt hloop hy
          exact ⟨ih (.here same.bare (same.nullable ▸ id)) same.left same.right (by omega),
            ih (.here same.bare.symm (same.nullable ▸ id)) same.right same.left (by omega)⟩

/-! ### Comparisons of transparent types -/

/-- What is assignable stays so however the types are written. -/
theorem LooksLike.isAssignableWithin {room room' : Nat} (hs : c.LooksLike s s')
    (ht : c.LooksLike t t') (hroom : (c.expanded s).levels + (c.expanded t).levels < room)
    (h : c.isAssignableWithin room' s t = true) : c.isAssignableWithin room s' t' = true := by
  induction room generalizing room' s s' t t' with
  | zero => omega
  | succ room ih =>
    have h := isAssignableWithin_mono (Nat.le_succ room') h
    rw [isAssignableWithin_succ_iff] at h
    cases h with
    | same h =>
      subst h
      -- Written in two ways, equal types are no longer equal and have to be looked into.
      have occurs : c.OccursIn s' t' :=
        .here (hs.bare.symm.trans ht.bare) (by rw [← hs.nullable, ht.nullable]; exact id)
      refine occurs.isAssignableWithin hloop hs.right ht.right ?_
      rwa [← hs.levels_eq, ← ht.levels_eq]
    | all h => exact isAssignableWithin_succ_iff.2 (.all (ht.acceptsAll_eq ▸ h))
    | unknown h =>
      have alike := hs.left.alike hloop hs.right hs.bare
      exact isAssignableWithin_succ_iff.2 (.unknown (alike.isUnknown_eq ▸ h))
    | fits hnull h =>
      refine isAssignableWithin_succ_iff.2 (.fits (by rwa [← hs.nullable, ← ht.nullable]) ?_)
      have levelsₛ := levels_expanded_dealiased hloop s
      have levelsₜ := levels_expanded_dealiased hloop t
      refine h.map (hs.left.alike hloop hs.right hs.bare) (ht.left.alike hloop ht.right ht.bare)
        ?_ ?_ ?_ ?_
      · rintro x x' ⟨⟨hx, -⟩, same⟩
        have less := levels_expanded_lt hloop hx
        exact ih same (ht.dealiased hloop) (by omega)
      · rintro y y' ⟨⟨hy, -⟩, same⟩
        have less := levels_expanded_lt hloop hy
        exact ih (hs.dealiased hloop) same (by omega)
      · rintro x x' y y' ⟨⟨hx, -⟩, sameₛ⟩ ⟨⟨hy, -⟩, sameₜ⟩
        have less := levels_expanded_lt hloop hx
        have less' := levels_expanded_lt hloop hy
        exact ih sameₛ sameₜ (by omega)
      · rintro x x' y y' ⟨⟨hx, -⟩, sameₛ⟩ ⟨⟨hy, -⟩, sameₜ⟩
        have less := levels_expanded_lt hloop hx
        have less' := levels_expanded_lt hloop hy
        exact ih sameₜ sameₛ (by omega)

/-! ### Expansions -/

/-- Comparisons of an expansion come to expansions only. -/
theorem ComesTo.exists_of_expanded {p : TypeExpr} (h : c.ComesTo (c.expanded t) p) :
    ∃ q, c.ComesTo t q ∧ c.expanded q = p := by
  generalize he : c.expanded t = e at h
  induction h generalizing t with
  | self => exact ⟨t, .self t, he⟩
  | component hx _ ih =>
    rw [← he, dealiased_expanded hloop, components_expanded hloop] at hx
    obtain ⟨y, hy, rfl⟩ := List.mem_map.1 hx
    obtain ⟨q, hq, rfl⟩ := ih rfl
    exact ⟨q, .component hy hq, rfl⟩

/-- The expansion of a faithful type is faithful. -/
theorem IsFaithful.expanded (h : c.IsFaithful t) : c.IsFaithful (c.expanded t) where
  acceptsAll := by rw [expanded_expanded hloop]
  alternatives := by
    rw [expanded_expanded hloop, dealiased_expanded hloop, ← h.nullable]
    exact h.alternatives
  fields := by
    rw [expanded_expanded hloop]
    exact h.fields
  returns := by
    intro r hr
    rw [dealiased_expanded hloop] at hr
    have hmem := TypeExpr.mem_components_of_returns? hr
    rw [components_expanded hloop] at hmem
    obtain ⟨x, -, rfl⟩ := List.mem_map.1 hmem
    rw [expanded_expanded hloop]
  nullable := by rw [dealiased_expanded hloop, expanded_expanded hloop]

theorem IsTransparent.expanded (h : c.IsTransparent t) : c.IsTransparent (c.expanded t) := by
  intro p hp
  obtain ⟨q, hq, rfl⟩ := hp.exists_of_expanded hloop
  exact (h q hq).expanded hloop

theorem IsTransparent.looksLike_expanded (h : c.IsTransparent t) :
    c.LooksLike t (c.expanded t) :=
  h.looksLike (h.expanded hloop) (expanded_expanded hloop t).symm

end NoLoop

/-- Transparent types compare as their expansions do. -/
theorem isAssignable_expanded (hloop : c.HasNoAliasLoop) (hs : c.IsTransparent s)
    (ht : c.IsTransparent t) (levelsₛ : (c.expanded s).levels ≤ 15)
    (levelsₜ : (c.expanded t).levels ≤ 15) :
    c.isAssignable s t = c.isAssignable (c.expanded s) (c.expanded t) := by
  have likeₛ := hs.looksLike_expanded hloop
  have likeₜ := ht.looksLike_expanded hloop
  refine Bool.eq_iff_iff.2 ⟨fun h => ?_, fun h => ?_⟩
  · refine likeₛ.isAssignableWithin hloop likeₜ ?_ h
    rw [assignabilityDepth]
    omega
  · refine likeₛ.symm.isAssignableWithin hloop likeₜ.symm ?_ h
    rw [expanded_expanded hloop, expanded_expanded hloop, assignabilityDepth]
    omega

/-- Samples are arrays of levels, which are numbers, and handlers are functions of samples: two
records with a field of each, written with aliases and without. -/
theorem isAssignable_expanded_samples :
    let level := TypeDeclaration.ofTypedef "Level" (.primitive .number)
    let samples := TypeDeclaration.ofTypedef "Samples" (.array (.named "Level"))
    let handler := TypeDeclaration.ofTypedef "Handler" (.function [(.named "Samples", false)] .void)
    let c := ofDeclarations [handler, level, samples] []
    let numbers := TypeExpr.nullable (.array (.primitive .number))
    let s := TypeExpr.record [("data", .named "Samples"), ("done", .named "Handler")]
    let t := TypeExpr.record [("done", .function [(numbers, false)] .void), ("data", numbers)]
    c.isAssignable s t = true ∧ c.isAssignable (c.expanded s) (c.expanded t) = true := by
  intro level samples handler c numbers s t
  have hloop : c.HasNoAliasLoop := by
    refine .of_rank (fun n => if n = "Level" then 0 else if n = "Samples" then 1 else 2) ?_
    decide +kernel
  have hnumber : c.IsTransparent (.primitive .number) :=
    .of_components [] (by decide +kernel) (by decide +kernel) (by simp)
  have hvoid : c.IsTransparent .void :=
    .of_components [] (by decide +kernel) (by decide +kernel) (by simp)
  have hlevel : c.IsTransparent (.named "Level") :=
    .of_components [] (by decide +kernel) (by decide +kernel) (by simp)
  have hsamples : c.IsTransparent (.named "Samples") :=
    .of_components [.named "Level"] (by decide +kernel) (by decide +kernel)
      (by simpa using hlevel)
  have hhandler : c.IsTransparent (.named "Handler") :=
    .of_components [.void, .named "Samples"] (by decide +kernel) (by decide +kernel)
      (by simpa using ⟨hvoid, hsamples⟩)
  have hnumbers : c.IsTransparent numbers :=
    .of_components [.primitive .number] (by decide +kernel) (by decide +kernel)
      (by simpa using hnumber)
  have hfunction : c.IsTransparent (.function [(numbers, false)] .void) :=
    .of_components [.void, numbers] (by decide +kernel) (by decide +kernel)
      (by simpa using ⟨hvoid, hnumbers⟩)
  have hs : c.IsTransparent s :=
    .of_components [.named "Samples", .named "Handler"] (by decide +kernel) (by decide +kernel)
      (by simpa using ⟨hsamples, hhandler⟩)
  have ht : c.IsTransparent t :=
    .of_components [.function [(numbers, false)] .void, numbers] (by decide +kernel)
      (by decide +kernel) (by simpa using ⟨hfunction, hnumbers⟩)
  have h : c.isAssignable s t = true := by decide +kernel
  exact ⟨h, isAssignable_expanded hloop hs ht (by decide +kernel) (by decide +kernel) ▸ h⟩

/-- An alias of numbers stands for numbers even where null is added to it. -/
theorem isAssignable_nullable_alias :
    let meters := TypeDeclaration.ofTypedef "Meters" (.primitive .number)
    let c := ofDeclarations [meters] []
    let s := TypeExpr.nullable (.named "Meters")
    let t := TypeExpr.primitive .number
    c.HasNoAliasLoop ∧ (c.expanded s).levels ≤ 15 ∧ (c.expanded t).levels ≤ 15 ∧
      c.isAssignable s t = true ∧ c.isAssignable (c.expanded s) (c.expanded t) = false := by
  refine ⟨.of_rank (fun _ => 0) ?_, ?_⟩
  all_goals decide +kernel

end Catalog

end ApiCatalog
