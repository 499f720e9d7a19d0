import ApiCatalog.Proofs.Comparison
import ApiCatalog.Proofs.SearchOrder

/-!
# Chains of assignable types

Plain types without buffers that are assignable one after another are assignable from the first to
the last. Each comparison goes into a component of the first, the middle or the last type: into the
first if that is a union, else into the last if that is one, else into the middle if that is one,
and else into all three. So the induction is on the room that the two comparisons have together,
which also is room enough for the third.

The room that there is bounds neither the middle type nor the chain, since a type is compared with
another in as much room as the two have levels.

Main statement: `Catalog.isAssignable_trans`.
-/

namespace ApiCatalog.Catalog

variable {c : Catalog} {s t u x : TypeExpr}

/-- Whether no buffer is in a type. -/
def HasNoBuffer (t : TypeExpr) : Prop := ∀ kind, .buffer kind ∉ t.parts

instance : Decidable (HasNoBuffer t) :=
  decidable_of_iff (∀ kind ∈ BufferElement.all, .buffer kind ∉ t.parts)
    ⟨fun h kind => h kind (by cases kind <;> decide), fun h kind _ => h kind⟩

theorem HasNoBuffer.of_mem_components (hs : HasNoBuffer s) (h : x ∈ s.components) :
    HasNoBuffer x :=
  fun kind hmem => hs kind (TypeExpr.parts_subset_of_mem_components h hmem)

theorem HasNoBuffer.bare_ne {kind : BufferElement} (hs : HasNoBuffer s)
    (h : s.bare = .buffer kind) : False :=
  hs kind (h ▸ TypeExpr.bare_mem_parts s)

/-! ### Fits in a row -/

section Fits

variable {accepts accepts' : TypeExpr → TypeExpr → Bool}

/-- Every alternative of a union that fits is accepted. -/
theorem Fits.forall_alternatives {alternatives : List TypeExpr} (h : c.Fits accepts s t)
    (hs : s.bare = .union alternatives) : ∀ x ∈ alternatives, accepts x t = true := by
  cases h with
  | alternatives hs' h =>
    rw [hs] at hs'
    cases hs'
    exact h
  | alternative hs' => exact (hs' _ hs).elim
  | null hs' | primitive hs' | named hs' | buffer hs' | view hs' | array hs' | promise hs'
  | function hs' | record hs' =>
    rw [hs] at hs'
    cases hs'

/-- A type that fits a union is null, or a union itself, or is accepted by an alternative. -/
theorem Fits.exists_alternative {alternatives : List TypeExpr} (h : c.Fits accepts s t)
    (ht : t.bare = .union alternatives) :
    s.bare = .primitive .null ∨ (∃ xs, s.bare = .union xs) ∨
      ∃ y ∈ alternatives, accepts s y = true := by
  cases h with
  | null hs => exact .inl hs
  | alternatives hs => exact .inr (.inl ⟨_, hs⟩)
  | alternative _ ht' hy h =>
    rw [ht] at ht'
    cases ht'
    exact .inr (.inr ⟨_, hy, h⟩)
  | primitive _ ht' | named _ ht' | buffer _ ht' | view _ ht' | array _ ht' | promise _ ht'
  | function _ ht' | record _ ht' =>
    rw [ht] at ht'
    cases ht'

/-- Only null and unions fit null. -/
theorem Fits.null_of_null (h : c.Fits accepts s t) (ht : t.bare = .primitive .null) :
    s.bare = .primitive .null ∨ ∃ xs, s.bare = .union xs := by
  cases h with
  | null hs => exact .inl hs
  | alternatives hs => exact .inr ⟨_, hs⟩
  | primitive hs ht' =>
    rw [ht] at ht'
    cases ht'
    exact .inl hs
  | alternative _ ht' | named _ ht' | buffer _ ht' | view _ ht' | array _ ht' | promise _ ht'
  | function _ ht' | record _ ht' =>
    rw [ht] at ht'
    cases ht'

/-- Of three types none of which is a union, the first fits the last if it fits the middle one
and that fits the last, as far as components do. -/
theorem Fits.trans {accepts'' : TypeExpr → TypeExpr → Bool} (hkeyed : IsKeyed c.types)
    (hst : c.Fits accepts s t) (htu : c.Fits accepts' t u) (hplain : c.IsPlain s)
    (hbuffer : HasNoBuffer s) (hs : ∀ xs, s.bare ≠ .union xs) (ht : ∀ xs, t.bare ≠ .union xs)
    (hu : ∀ xs, u.bare ≠ .union xs)
    (components : ∀ x ∈ s.components, ∀ y ∈ t.components, ∀ z ∈ u.components,
      accepts x y = true → accepts' y z = true → accepts'' x z = true) :
    c.Fits accepts'' s u := by
  cases hst with
  | null hs => exact .null hs
  | alternatives hs' => exact (hs _ hs').elim
  | alternative _ ht' => exact (ht _ ht').elim
  | buffer hs' => exact (hbuffer.bare_ne hs').elim
  | view hs' => exact (hbuffer.bare_ne hs').elim
  | function hs' =>
    have plain := hplain.isPlainPart_bare
    rw [hs'] at plain
    cases plain
  | primitive hs' ht' =>
    cases htu with
    | alternatives ht'' => exact (ht _ ht'').elim
    | alternative _ hu' => exact (hu _ hu').elim
    | null ht'' =>
      rw [ht'] at ht''
      cases ht''
      exact .null hs'
    | primitive ht'' hu' =>
      rw [ht'] at ht''
      cases ht''
      exact .primitive hs' hu'
    | _ ht'' =>
      rw [ht'] at ht''
      cases ht''
  | named hs' ht' hsub =>
    cases htu with
    | alternative _ hu' => exact (hu _ hu').elim
    | named ht'' hu' hsup =>
      rw [ht'] at ht''
      cases ht''
      exact .named hs' hu' (isSubtype_trans hkeyed hsub hsup)
    | _ ht'' =>
      rw [ht'] at ht''
      cases ht''
  | @array x y hs' ht' hxy =>
    cases htu with
    | alternative _ hu' => exact (hu _ hu').elim
    | @array _ z ht'' hu' hyz =>
      rw [ht'] at ht''
      cases ht''
      refine .array hs' hu' (components x ?_ y ?_ z ?_ hxy hyz)
      · simp [TypeExpr.components, hs']
      · simp [TypeExpr.components, ht']
      · simp [TypeExpr.components, hu']
    | _ ht'' =>
      rw [ht'] at ht''
      cases ht''
  | @promise x y hs' ht' hxy =>
    cases htu with
    | alternative _ hu' => exact (hu _ hu').elim
    | @promise _ z ht'' hu' hyz =>
      rw [ht'] at ht''
      cases ht''
      refine .promise hs' hu' (components x ?_ y ?_ z ?_ hxy hyz)
      · simp [TypeExpr.components, hs']
      · simp [TypeExpr.components, ht']
      · simp [TypeExpr.components, hu']
    | _ ht'' =>
      rw [ht'] at ht''
      cases ht''
  | record hs' ht' hst =>
    cases htu with
    | alternative _ hu' => exact (hu _ hu').elim
    | record ht'' hu' htu =>
      rw [ht'] at ht''
      cases ht''
      refine .record hs' hu' fun e he => ?_
      -- the field of the middle record that comes first is one that the first record has to have
      obtain ⟨y, hy, hyz⟩ := htu e he
      have hmem := List.mem_of_find?_eq_some hy
      obtain ⟨x, hx, hxy⟩ := hst _ hmem
      refine ⟨x, hx, components x ?_ y ?_ e.2 ?_ hxy hyz⟩
      · rw [TypeExpr.components, hs']
        exact List.mem_map_of_mem (List.mem_of_find?_eq_some hx)
      · rw [TypeExpr.components, ht']
        exact List.mem_map_of_mem hmem
      · rw [TypeExpr.components, hu']
        exact List.mem_map_of_mem he
    | _ ht'' =>
      rw [ht'] at ht''
      cases ht''

end Fits

/-! ### Chains -/

/-- Two comparisons in a row make one, in the room of both together. -/
theorem isAssignableWithin_trans (hkeyed : IsKeyed c.types) {n m room : Nat}
    (hroom : n + m ≤ room) (hs : c.IsPlain s) (hbuffer : HasNoBuffer s) (ht : c.IsPlain t)
    (hu : c.IsPlain u) (hst : c.isAssignableWithin n s t = true)
    (htu : c.isAssignableWithin m t u = true) : c.isAssignableWithin room s u = true := by
  induction room generalizing n m s t u with
  | zero =>
    obtain ⟨rfl, rfl⟩ : n = 0 ∧ m = 0 := by omega
    rcases isAssignableWithin_zero_iff.1 hst with rfl | h
    · exact htu
    · simp [ht.not_acceptsAll] at h
  | succ room ih =>
    by_cases same : s = t ∨ t = u
    · rcases same with rfl | rfl
      · exact isAssignableWithin_mono (by omega) htu
      · exact isAssignableWithin_mono (by omega) hst
    rw [not_or] at same
    have compared {k : Nat} {x y : TypeExpr} (hx : c.IsPlain x) (hy : c.IsPlain y) (hne : x ≠ y)
        (h : c.isAssignableWithin k x y = true) :
        ∃ l, k = l + 1 ∧ (x.isNullable = true → y.isNullable = true) ∧
          c.Fits (c.isAssignableWithin l) x y := by
      cases k with
      | zero => simp [isAssignableWithin_zero_iff, hne, hy.not_acceptsAll] at h
      | succ l =>
        rw [isAssignableWithin_succ_iff, assignableBy_iff_of_isPlain hx hy] at h
        exact ⟨l, rfl, h.resolve_left hne⟩
    obtain ⟨n, rfl, hnull, hst'⟩ := compared hs ht same.1 hst
    obtain ⟨m, rfl, hnull', htu'⟩ := compared ht hu same.2 htu
    have fits (h : c.Fits (c.isAssignableWithin room) s u) :
        c.isAssignableWithin (room + 1) s u = true :=
      h.isAssignableWithin hs hu (hnull' ∘ hnull)
    by_cases hsu : ∃ xs, s.bare = .union xs
    · obtain ⟨xs, hxs⟩ := hsu
      refine fits (.alternatives hxs fun x hx => ?_)
      have hmem : x ∈ s.components := by rwa [TypeExpr.components_of_union hxs]
      exact ih (by omega) (hs.of_mem_components hmem) (hbuffer.of_mem_components hmem) ht hu
        (hst'.forall_alternatives hxs x hx) htu
    by_cases htun : ∃ ys, t.bare = .union ys
    · obtain ⟨ys, hys⟩ := htun
      rcases hst'.exists_alternative hys with hnull | hsu' | ⟨y, hy, hsy⟩
      · exact fits (.null hnull)
      · exact (hsu hsu').elim
      · have hmem : y ∈ t.components := by rwa [TypeExpr.components_of_union hys]
        refine isAssignableWithin_mono (Nat.le_succ room) ?_
        exact ih (by omega) hs hbuffer (ht.of_mem_components hmem) hu hsy
          (htu'.forall_alternatives hys y hy)
    by_cases huu : ∃ zs, u.bare = .union zs
    · obtain ⟨zs, hzs⟩ := huu
      rcases htu'.exists_alternative hzs with hnull | htun' | ⟨z, hz, htz⟩
      · rcases hst'.null_of_null hnull with hnull | hsu'
        · exact fits (.null hnull)
        · exact (hsu hsu').elim
      · exact (htun htun').elim
      · have hmem : z ∈ u.components := by rwa [TypeExpr.components_of_union hzs]
        refine fits (.alternative (fun xs h => hsu ⟨xs, h⟩) hzs hz ?_)
        exact ih (by omega) hs hbuffer ht (hu.of_mem_components hmem) hst htz
    · refine fits (hst'.trans hkeyed htu' hs hbuffer (fun xs h => hsu ⟨xs, h⟩)
        (fun ys h => htun ⟨ys, h⟩) (fun zs h => huu ⟨zs, h⟩) fun x hx y hy z hz hxy hyz => ?_)
      exact ih (by omega) (hs.of_mem_components hx) (hbuffer.of_mem_components hx)
        (ht.of_mem_components hy) (hu.of_mem_components hz) hxy hyz

/-- Plain types that are assignable one after another are assignable from the first, if it has no
buffer in it, to the last, if the two nest no deeper than comparisons go. -/
theorem isAssignable_trans (hkeyed : IsKeyed c.types) (hs : c.IsPlain s) (hbuffer : HasNoBuffer s)
    (ht : c.IsPlain t) (hu : c.IsPlain u) (hslevels : s.levels ≤ 15) (hulevels : u.levels ≤ 15)
    (hst : c.isAssignable s t = true) (htu : c.isAssignable t u = true) :
    c.isAssignable s u = true := by
  have h := isAssignableWithin_trans hkeyed (Nat.le_refl _) hs hbuffer ht hu hst htu
  refine isAssignableWithin_of_levels hs hu ?_ h
  rw [assignabilityDepth]
  omega

/-- Arrays of a type and of its parent, and a union with the arrays of the parent of that. -/
theorem isAssignable_trans_generations :
    let c := ofDeclarations
      [TypeDeclaration.ofClass "Root", (TypeDeclaration.ofClass "Middle").withParent "Root",
        (TypeDeclaration.ofClass "Leaf").withParent "Middle"] []
    let s := TypeExpr.array (.nonNull (.named "Leaf"))
    let t := TypeExpr.array (.named "Middle")
    let u := TypeExpr.union [.primitive .string, .array (.nullable (.named "Root"))]
    c.isAssignable s t = true ∧ c.isAssignable t u = true ∧ c.isAssignable s u = true := by
  intro c s t u
  have hkeyed : IsKeyed c.types := OrderedMap.IsKeyed.ofList _
  have leaf : c.isSubtype "Leaf" "Middle" = true :=
    isSubtype_of_declared hkeyed rfl (by decide +kernel) (.inl rfl) rfl
  have middle : c.isSubtype "Middle" "Root" = true :=
    isSubtype_of_declared hkeyed rfl (by decide +kernel) (.inl rfl) rfl
  have hs : c.IsPlain s := by decide +kernel
  have ht : c.IsPlain t := by decide +kernel
  have hu : c.IsPlain u := by decide +kernel
  have hst : c.isAssignable s t = true := by
    refine Fits.isAssignableWithin hs ht (by decide) (.array rfl rfl ?_)
    exact Fits.isAssignableWithin (by decide +kernel) (by decide +kernel) (by decide)
      (.named rfl rfl leaf)
  have htu : c.isAssignable t u = true := by
    refine Fits.isAssignableWithin ht hu (by decide)
      (.alternative (by simp [t, TypeExpr.bare]) rfl (List.mem_cons_of_mem _ List.mem_cons_self) ?_)
    refine Fits.isAssignableWithin ht (by decide +kernel) (by decide) (.array rfl rfl ?_)
    exact Fits.isAssignableWithin (by decide +kernel) (by decide +kernel) (by decide)
      (.named rfl rfl middle)
  exact ⟨hst, htu, isAssignable_trans hkeyed hs (by decide +kernel) ht hu (by decide) (by decide)
    hst htu⟩

end ApiCatalog.Catalog
