import Mathlib.Data.List.Forall2
import ApiCatalog.Catalog.Assignable

/-!
# How one type is compared with another

Assignability compares two types by their outermost shapes and then their components. What is
said here about one comparison is all that later proofs know of it: `Catalog.AssignableBy` has one
constructor for each way in which a type is assignable, and `Catalog.Fits` one for each pair of
shapes.

Every comparison of components has fewer levels of nesting left than the comparison that it comes
from. So more room than there are levels changes nothing.

Main statements: `Catalog.isAssignableWithin_succ_iff`, one comparison; `Catalog.Fits.map`,
comparisons of like types; `Catalog.isAssignableWithin_mono` and
`Catalog.isAssignableWithin_of_levels`, the room for a comparison.
-/

namespace ApiCatalog

variable {s t x y : TypeExpr} {c : Catalog}

namespace TypeExpr

/-! ### Components -/

/-- The types that a type is made of, once its qualifiers are dropped. -/
def components (t : TypeExpr) : List TypeExpr :=
  match t.bare with
  | .array element => [element]
  | .promise payload => [payload]
  | .union alternatives => alternatives
  | .function params returns => returns :: params.map (·.1)
  | .record fields => fields.map (·.2)
  | _ => []

@[simp] theorem bare_bare : ∀ t : TypeExpr, t.bare.bare = t.bare
  | .nullable inner => bare_bare inner
  | .nonNull inner => bare_bare inner
  | .primitive _ | .any | .unknown | .named _ | .array _ | .buffer _ | .union _ | .promise _
  | .function _ _ | .record _ => rfl

mutual

/-- How deep the components in a type nest. -/
def levels : TypeExpr → Nat
  | .nullable inner => inner.levels
  | .nonNull inner => inner.levels
  | .array element => element.levels + 1
  | .promise payload => payload.levels + 1
  | .union alternatives => levelsOfAll alternatives
  | .function params returns => max (levelsOfParams params) (returns.levels + 1)
  | .record fields => levelsOfFields fields
  | .primitive _ | .any | .unknown | .named _ | .buffer _ => 0

/-- How deep the alternatives of a union nest below it. -/
def levelsOfAll : List TypeExpr → Nat
  | [] => 0
  | t :: ts => max (t.levels + 1) (levelsOfAll ts)

/-- How deep the parameters of a function nest below it. -/
def levelsOfParams : List (TypeExpr × Bool) → Nat
  | [] => 0
  | (t, _) :: ts => max (t.levels + 1) (levelsOfParams ts)

/-- How deep the fields of a record nest below it. -/
def levelsOfFields : List (String × TypeExpr) → Nat
  | [] => 0
  | (_, t) :: ts => max (t.levels + 1) (levelsOfFields ts)

end

theorem levelsOfParams_eq (ps : List (TypeExpr × Bool)) :
    levelsOfParams ps = levelsOfAll (ps.map (·.1)) := by
  induction ps with
  | nil => rfl
  | cons p ps ih => rw [levelsOfParams, ih, List.map_cons, levelsOfAll]

theorem levelsOfFields_eq (fs : List (String × TypeExpr)) :
    levelsOfFields fs = levelsOfAll (fs.map (·.2)) := by
  induction fs with
  | nil => rfl
  | cons e fs ih => rw [levelsOfFields, ih, List.map_cons, levelsOfAll]

theorem levels_eq : ∀ t : TypeExpr, t.levels = levelsOfAll t.components
  | .nullable inner => levels_eq inner
  | .nonNull inner => levels_eq inner
  | .array _ | .promise _ => (Nat.max_zero _).symm
  | .function params returns => by
    rw [levels, levelsOfParams_eq, Nat.max_comm]
    rfl
  | .record fields => levelsOfFields_eq fields
  | .primitive _ | .any | .unknown | .named _ | .buffer _ | .union _ => rfl

theorem components_bare (t : TypeExpr) : t.bare.components = t.components := by
  rw [components, bare_bare, ← components]

@[simp] theorem levels_bare (t : TypeExpr) : t.bare.levels = t.levels := by
  rw [levels_eq, components_bare, ← levels_eq]

theorem components_of_union {ts : List TypeExpr} (h : t.bare = .union ts) : t.components = ts := by
  rw [components, h]

/-- A component has fewer levels than the type. -/
theorem levels_lt_of_mem_components (h : x ∈ t.components) : x.levels < t.levels := by
  rw [levels_eq t]
  generalize t.components = ts at h
  induction ts with
  | nil => cases h
  | cons u ts ih =>
    rw [levelsOfAll]
    rcases List.mem_cons.1 h with rfl | h
    · omega
    · have := ih h
      omega

/-! ### Parts -/

theorem mem_partsOfAll {ts : List TypeExpr} :
    x ∈ partsOfAll ts ↔ ∃ t ∈ ts, x ∈ t.parts := by
  induction ts with
  | nil => simp [partsOfAll]
  | cons t ts ih => simp [partsOfAll, ih]

theorem partsOfParams_eq (ps : List (TypeExpr × Bool)) :
    partsOfParams ps = partsOfAll (ps.map (·.1)) := by
  induction ps with
  | nil => rfl
  | cons p ps ih => rw [partsOfParams, ih, List.map_cons, partsOfAll]

theorem partsOfFields_eq (fs : List (String × TypeExpr)) :
    partsOfFields fs = partsOfAll (fs.map (·.2)) := by
  induction fs with
  | nil => rfl
  | cons e fs ih => rw [partsOfFields, ih, List.map_cons, partsOfAll]

theorem mem_parts_self (t : TypeExpr) : t ∈ t.parts := by
  rw [parts.eq_def]
  exact List.mem_cons_self

theorem parts_subset_partsOfAll {ts : List TypeExpr} (h : x ∈ ts) : x.parts ⊆ partsOfAll ts :=
  fun _ hy => mem_partsOfAll.2 ⟨x, h, hy⟩

/-- The parts of a component are parts of the type. -/
theorem parts_subset_of_mem_components : ∀ {t : TypeExpr}, x ∈ t.components → x.parts ⊆ t.parts
  | .nullable _, h | .nonNull _, h =>
    List.subset_cons_of_subset _ (parts_subset_of_mem_components h)
  | .array _, h | .promise _, h => by
    rw [List.mem_singleton.1 h]
    exact List.subset_cons_self _ _
  | .union _, h => List.subset_cons_of_subset _ (parts_subset_partsOfAll h)
  | .function params returns, h => by
    refine List.subset_cons_of_subset _ ?_
    rcases List.mem_cons.1 h with rfl | h
    · exact List.subset_append_right _ _
    · rw [partsOfParams_eq]
      exact List.subset_append_of_subset_left _ (parts_subset_partsOfAll h)
  | .record fields, h => by
    refine List.subset_cons_of_subset _ ?_
    rw [partsOfFields_eq]
    exact parts_subset_partsOfAll h

theorem bare_mem_parts : ∀ t : TypeExpr, t.bare ∈ t.parts
  | .nullable inner => by
    rw [parts.eq_def]
    exact List.mem_cons_of_mem _ (bare_mem_parts inner)
  | .nonNull inner => by
    rw [parts.eq_def]
    exact List.mem_cons_of_mem _ (bare_mem_parts inner)
  | .primitive _ | .any | .unknown | .named _ | .array _ | .buffer _ | .union _ | .promise _
  | .function _ _ | .record _ => mem_parts_self _

end TypeExpr

namespace Catalog

/-! ### One comparison -/

/-- Whether the shape of a type fits that of another, qualifiers aside, where components are
compared by `accepts`. -/
inductive Fits (c : Catalog) (accepts : TypeExpr → TypeExpr → Bool) (s t : TypeExpr) : Prop
  | null (hs : s.bare = .primitive .null)
  | alternatives {alternatives : List TypeExpr} (hs : s.bare = .union alternatives)
      (h : ∀ x ∈ alternatives, accepts x t = true)
  | alternative {alternatives : List TypeExpr} {y : TypeExpr}
      (hs : ∀ alternatives, s.bare ≠ .union alternatives) (ht : t.bare = .union alternatives)
      (hy : y ∈ alternatives) (h : accepts s y = true)
  | primitive {kind : Primitive} (hs : s.bare = .primitive kind) (ht : t.bare = .primitive kind)
  | named {sub sup : String} (hs : s.bare = .named sub) (ht : t.bare = .named sup)
      (h : c.isSubtype sub sup = true)
  | buffer {kind : BufferElement} (hs : s.bare = .buffer kind) (ht : t.bare = .buffer kind)
  | view {kind : BufferElement} (hs : s.bare = .buffer kind) (ht : t.bare = .named kind.viewName)
  | array {x y : TypeExpr} (hs : s.bare = .array x) (ht : t.bare = .array y)
      (h : accepts x y = true)
  | promise {x y : TypeExpr} (hs : s.bare = .promise x) (ht : t.bare = .promise y)
      (h : accepts x y = true)
  | function {source target : List (TypeExpr × Bool)} {x y : TypeExpr}
      (hs : s.bare = .function source x) (ht : t.bare = .function target y)
      (hparams : acceptsCalls accepts source target = true)
      (hreturns : y.isVoid = true ∨ accepts x y = true)
  | record {source target : List (String × TypeExpr)} (hs : s.bare = .record source)
      (ht : t.bare = .record target)
      (h : ∀ e ∈ target, ∃ x, source.find? (·.1 == e.1) = some (e.1, x) ∧ accepts x e.2 = true)

/-- How a type is assignable to another, where components are compared by `accepts`: the two are
equal, or nothing is asked of the value or known of it, or null fits and the shapes do. -/
inductive AssignableBy (c : Catalog) (accepts : TypeExpr → TypeExpr → Bool) (s t : TypeExpr) :
    Prop
  | same (h : s = t)
  | all (h : acceptsAll t = true)
  | unknown (h : isUnknown (c.dealiased s) = true)
  | fits (hnull : (c.dealiased s).isNullable = true → (c.dealiased t).isNullable = true)
      (h : c.Fits accepts (c.dealiased s) (c.dealiased t))

theorem isAssignableWithin_zero_iff :
    c.isAssignableWithin 0 s t = true ↔ s = t ∨ acceptsAll t = true := by
  simp [isAssignableWithin]

theorem exists_find?_iff {accepts : TypeExpr → TypeExpr → Bool} {source : List (String × TypeExpr)}
    {name : String} {t : TypeExpr} :
    (source.find? (·.1 == name)).any (fun e => accepts e.2 t) = true ↔
      ∃ x, source.find? (·.1 == name) = some (name, x) ∧ accepts x t = true := by
  cases h : source.find? (·.1 == name) with
  | none => simp
  | some e =>
    obtain ⟨other, x⟩ := e
    obtain rfl : other = name := by simpa using List.find?_some h
    simp

theorem AssignableBy.of_isAssignableWithin {room : Nat}
    (h : c.isAssignableWithin (room + 1) s t = true) :
    c.AssignableBy (c.isAssignableWithin room) s t := by
  rw [isAssignableWithin, Bool.or_eq_true, Bool.or_eq_true, beq_iff_eq] at h
  dsimp only at h
  rcases h with (h | h) | h
  · exact .same h
  · exact .all h
  split at h
  · exact .unknown ‹_›
  split at h
  · cases h
  rename_i hnull
  simp only [Bool.and_eq_true, Bool.not_eq_true', not_and, Bool.not_eq_false] at hnull
  refine .fits hnull ?_
  split at h
  · exact .null ‹_›
  · exact .alternatives ‹_› (List.all_eq_true.1 h)
  · obtain ⟨y, hy, h⟩ := List.any_eq_true.1 h
    exact .alternative ‹_› ‹_› hy h
  · rw [beq_iff_eq] at h
    subst h
    exact .primitive ‹_› ‹_›
  · refine .named ‹_› ‹_› ?_
    simpa [isSubtype] using h
  · rw [beq_iff_eq] at h
    subst h
    exact .buffer ‹_› ‹_›
  · rw [beq_iff_eq] at h
    subst h
    exact .view ‹_› ‹_›
  · exact .array ‹_› ‹_› h
  · exact .promise ‹_› ‹_› h
  · rw [Bool.and_eq_true, Bool.or_eq_true] at h
    exact .function ‹_› ‹_› h.1 h.2
  · exact .record ‹_› ‹_› fun e he => exists_find?_iff.1 (List.all_eq_true.1 h e he)
  · cases h

theorem AssignableBy.isAssignableWithin {room : Nat}
    (h : c.AssignableBy (c.isAssignableWithin room) s t) :
    c.isAssignableWithin (room + 1) s t = true := by
  rw [Catalog.isAssignableWithin, Bool.or_eq_true, Bool.or_eq_true, beq_iff_eq]
  dsimp only
  cases h with
  | same h => exact .inl (.inl h)
  | all h => exact .inl (.inr h)
  | unknown h => exact .inr (if_pos h)
  | fits hnull h =>
    refine .inr ?_
    split
    · rfl
    · rw [if_neg (by simpa using hnull)]
      cases h with
      | null hs => simp only [hs]
      | alternatives hs h => simpa only [hs] using List.all_eq_true.2 h
      | alternative hs ht hy h =>
        have any := List.any_eq_true.2 ⟨_, hy, h⟩
        split
        all_goals simp_all
      | primitive hs ht => cases ‹Primitive› <;> simp only [hs, ht] <;> rfl
      | named hs ht h => simp [hs, ht, h]
      | buffer hs ht => simp [hs, ht]
      | view hs ht => simp [hs, ht]
      | array hs ht h => simpa [hs, ht] using h
      | promise hs ht h => simpa [hs, ht] using h
      | function hs ht hparams hreturns => simp [hs, ht, hparams, hreturns]
      | record hs ht h =>
        simp only [hs, ht]
        exact List.all_eq_true.2 fun e he => exists_find?_iff.2 (h e he)

/-- One comparison. -/
theorem isAssignableWithin_succ_iff {room : Nat} :
    c.isAssignableWithin (room + 1) s t = true ↔
      c.AssignableBy (c.isAssignableWithin room) s t :=
  ⟨.of_isAssignableWithin, AssignableBy.isAssignableWithin⟩

/-! ### Comparisons of like types -/

/-- Two types without qualifiers have the same shape, with related components. -/
inductive Alike (R : TypeExpr → TypeExpr → Prop) : TypeExpr → TypeExpr → Prop
  | primitive (kind : Primitive) : Alike R (.primitive kind) (.primitive kind)
  | any : Alike R .any .any
  | unknown : Alike R .unknown .unknown
  | named (name : String) : Alike R (.named name) (.named name)
  | buffer (kind : BufferElement) : Alike R (.buffer kind) (.buffer kind)
  | array {x y : TypeExpr} (h : R x y) : Alike R (.array x) (.array y)
  | promise {x y : TypeExpr} (h : R x y) : Alike R (.promise x) (.promise y)
  | union {xs ys : List TypeExpr} (h : List.Forall₂ R xs ys) : Alike R (.union xs) (.union ys)
  | function {ps qs : List (TypeExpr × Bool)} {x y : TypeExpr}
      (hparams : List.Forall₂ (fun p q => R p.1 q.1 ∧ p.2 = q.2) ps qs) (hreturns : R x y)
      (hvoid : x.isVoid = y.isVoid) : Alike R (.function ps x) (.function qs y)
  | record {es fs : List (String × TypeExpr)}
      (h : List.Forall₂ (fun e f => e.1 = f.1 ∧ R e.2 f.2) es fs) :
      Alike R (.record es) (.record fs)

theorem exists_of_forall₂ {α β : Type} {R : α → β → Prop} {xs : List α} {ys : List β}
    (h : List.Forall₂ R xs ys) : ∀ y ∈ ys, ∃ x ∈ xs, R x y := by
  induction h with
  | nil => simp
  | cons first _ ih =>
    intro y hy
    rcases List.mem_cons.1 hy with rfl | hy
    · exact ⟨_, List.mem_cons_self, first⟩
    · obtain ⟨x, hx, hxy⟩ := ih y hy
      exact ⟨x, List.mem_cons_of_mem _ hx, hxy⟩

section Alike

variable {R S : TypeExpr → TypeExpr → Prop} {accepts accepts' : TypeExpr → TypeExpr → Bool}
  {s' t' : TypeExpr}

/-- The fields with a name that come first in like records are related. -/
theorem exists_find?_of_forall₂ {es fs : List (String × TypeExpr)} {name : String}
    (h : List.Forall₂ (fun e f => e.1 = f.1 ∧ R e.2 f.2) es fs)
    (hx : es.find? (·.1 == name) = some (name, x)) :
    ∃ y, fs.find? (·.1 == name) = some (name, y) ∧ R x y := by
  induction h with
  | nil => cases hx
  | @cons e f es fs first _ ih =>
    obtain ⟨m, u⟩ := e
    obtain ⟨n, v⟩ := f
    obtain ⟨rfl : m = n, hR : R u v⟩ := first
    by_cases hname : m = name
    · simp only [List.find?_cons, hname, beq_self_eq_true, Option.some.injEq, Prod.mk.injEq,
        true_and] at hx ⊢
      exact ⟨v, rfl, hx ▸ hR⟩
    · rw [List.find?_cons_of_neg (by simpa using hname)] at hx ⊢
      exact ih hx

theorem acceptsCalls_of_forall₂ {ps ps' qs qs' : List (TypeExpr × Bool)}
    (hps : List.Forall₂ (fun p p' => R p.1 p'.1 ∧ p.2 = p'.2) ps ps')
    (hqs : List.Forall₂ (fun q q' => S q.1 q'.1 ∧ q.2 = q'.2) qs qs')
    (flipped : ∀ x x' y y', R x x' → S y y' → accepts y x = true → accepts' y' x' = true)
    (h : acceptsCalls accepts ps qs = true) : acceptsCalls accepts' ps' qs' = true := by
  induction hps generalizing qs qs' with
  | nil => rfl
  | cons first _ ih =>
    obtain ⟨hR, hflag⟩ := first
    cases hqs with
    | nil =>
      simp only [acceptsCalls, Bool.and_eq_true] at h ⊢
      exact ⟨hflag ▸ h.1, ih .nil h.2⟩
    | cons second rest =>
      simp only [acceptsCalls, Bool.and_eq_true] at h ⊢
      exact ⟨flipped _ _ _ _ hR second.1 h.1, ih rest h.2⟩

/-- If a type fits another, then types like them fit as well, as far as components that were
accepted are accepted. -/
theorem Fits.map (hs : Alike R s.bare s'.bare) (ht : Alike S t.bare t'.bare)
    (left : ∀ x x', R x x' → accepts x t = true → accepts' x' t' = true)
    (right : ∀ y y', S y y' → accepts s y = true → accepts' s' y' = true)
    (both : ∀ x x' y y', R x x' → S y y' → accepts x y = true → accepts' x' y' = true)
    (flipped : ∀ x x' y y', R x x' → S y y' → accepts y x = true → accepts' y' x' = true)
    (h : c.Fits accepts s t) : c.Fits accepts' s' t' := by
  generalize hs' : s'.bare = a at hs
  generalize ht' : t'.bare = b at ht
  cases h with
  | null hbare =>
    rw [hbare] at hs
    cases hs
    exact .null hs'
  | alternatives hbare h =>
    rw [hbare] at hs
    cases hs with
    | union hs =>
      refine .alternatives hs' fun x' hx' => ?_
      obtain ⟨x, hx, hR⟩ := exists_of_forall₂ hs x' hx'
      exact left x x' hR (h x hx)
  | alternative hne hbare hy h =>
    rw [hbare] at ht
    cases ht with
    | union ht =>
      obtain ⟨y', hy', hS⟩ := exists_of_forall₂ ht.flip _ hy
      refine .alternative (fun alternatives hunion => ?_) ht' hy' (right _ y' hS h)
      rw [hs'] at hunion
      subst hunion
      generalize hbare : s.bare = d at hs
      cases hs
      exact hne _ hbare
  | primitive hbare hbare' =>
    rw [hbare] at hs
    rw [hbare'] at ht
    cases hs
    cases ht
    exact .primitive hs' ht'
  | named hbare hbare' h =>
    rw [hbare] at hs
    rw [hbare'] at ht
    cases hs
    cases ht
    exact .named hs' ht' h
  | buffer hbare hbare' =>
    rw [hbare] at hs
    rw [hbare'] at ht
    cases hs
    cases ht
    exact .buffer hs' ht'
  | view hbare hbare' =>
    rw [hbare] at hs
    rw [hbare'] at ht
    cases hs
    cases ht
    exact .view hs' ht'
  | array hbare hbare' h =>
    rw [hbare] at hs
    rw [hbare'] at ht
    cases hs with
    | array hR => cases ht with
      | array hS => exact .array hs' ht' (both _ _ _ _ hR hS h)
  | promise hbare hbare' h =>
    rw [hbare] at hs
    rw [hbare'] at ht
    cases hs with
    | promise hR => cases ht with
      | promise hS => exact .promise hs' ht' (both _ _ _ _ hR hS h)
  | function hbare hbare' hparams hreturns =>
    rw [hbare] at hs
    rw [hbare'] at ht
    cases hs with
    | function hps hR => cases ht with
      | function hqs hS hvoid =>
        refine .function hs' ht' (acceptsCalls_of_forall₂ hps hqs flipped hparams) ?_
        exact hreturns.imp (hvoid ▸ ·) (both _ _ _ _ hR hS)
  | record hbare hbare' h =>
    rw [hbare] at hs
    rw [hbare'] at ht
    cases hs with
    | record hes => cases ht with
      | record hfs =>
        refine .record hs' ht' fun f' hf' => ?_
        obtain ⟨f, hf, hname, hS⟩ := exists_of_forall₂ hfs f' hf'
        obtain ⟨x, hx, haccepts⟩ := h f hf
        obtain ⟨x', hx', hR⟩ := exists_find?_of_forall₂ hes hx
        rw [hname] at hx'
        exact ⟨x', hx', both _ _ _ _ hR hS haccepts⟩

theorem Alike.mono {a b : TypeExpr} (h : Alike R a b) (imp : ∀ x y, R x y → S x y) :
    Alike S a b := by
  cases h with
  | primitive kind => exact .primitive kind
  | any => exact .any
  | unknown => exact .unknown
  | named name => exact .named name
  | buffer kind => exact .buffer kind
  | array h => exact .array (imp _ _ h)
  | promise h => exact .promise (imp _ _ h)
  | union h => exact .union (h.imp imp)
  | function h hreturns hvoid =>
    exact .function (h.imp fun _ _ => And.imp_left (imp _ _)) (imp _ _ hreturns) hvoid
  | record h => exact .record (h.imp fun _ _ => And.imp_right (imp _ _))

theorem forall₂_join {α β γ : Type} {R : α → γ → Prop} {S : β → γ → Prop} {xs : List α}
    {ys : List β} {zs : List γ} (h : List.Forall₂ R xs zs) (h' : List.Forall₂ S ys zs) :
    List.Forall₂ (fun x y => ∃ z, R x z ∧ S y z) xs ys := by
  induction h generalizing ys with
  | nil =>
    cases h'
    exact .nil
  | cons first _ ih =>
    cases h' with
    | cons first' rest' => exact .cons ⟨_, first, first'⟩ (ih rest')

/-- Two types like a third one are like each other. -/
theorem Alike.join {a b d : TypeExpr} (h : Alike R a d) (h' : Alike S b d) :
    Alike (fun x y => ∃ z, R x z ∧ S y z) a b := by
  cases h with
  | primitive kind => cases h'; exact .primitive kind
  | any => cases h'; exact .any
  | unknown => cases h'; exact .unknown
  | named name => cases h'; exact .named name
  | buffer kind => cases h'; exact .buffer kind
  | array hR => cases h' with
    | array hS => exact .array ⟨_, hR, hS⟩
  | promise hR => cases h' with
    | promise hS => exact .promise ⟨_, hR, hS⟩
  | union hR => cases h' with
    | union hS => exact .union (forall₂_join hR hS)
  | function hR hx hvoid => cases h' with
    | function hS hy hvoid' =>
      refine .function ((forall₂_join hR hS).imp ?_) ⟨_, hx, hy⟩ (hvoid.trans hvoid'.symm)
      exact fun p q ⟨r, ⟨hp, same⟩, hq, same'⟩ => ⟨⟨_, hp, hq⟩, same.trans same'.symm⟩
  | record hR => cases h' with
    | record hS =>
      refine .record ((forall₂_join hR hS).imp ?_)
      exact fun e f ⟨g, ⟨same, he⟩, same', hf⟩ => ⟨same.trans same'.symm, _, he, hf⟩

theorem Alike.acceptsAll_eq (h : Alike R s.bare t.bare) : acceptsAll s = acceptsAll t := by
  unfold acceptsAll
  generalize s.bare = a at h
  generalize t.bare = b at h
  cases h <;> rfl

theorem Alike.isUnknown_eq (h : Alike R s.bare t.bare) : isUnknown s = isUnknown t := by
  unfold isUnknown
  generalize s.bare = a at h
  generalize t.bare = b at h
  cases h <;> rfl

theorem acceptsCalls_of_accepts {ps qs : List (TypeExpr × Bool)}
    (h : List.Forall₂ (fun p q => accepts q.1 p.1 = true ∧ p.2 = q.2) ps qs) :
    acceptsCalls accepts ps qs = true := by
  induction h with
  | nil => rfl
  | cons first _ ih =>
    rw [acceptsCalls, Bool.and_eq_true]
    exact ⟨first.1, ih⟩

/-- The fields of a record are found under their names if no name comes twice. -/
theorem exists_find?_of_nodup {es fs : List (String × TypeExpr)} {f : String × TypeExpr}
    (h : List.Forall₂ (fun e f => e.1 = f.1 ∧ R e.2 f.2) es fs) (hnodup : (fs.map (·.1)).Nodup)
    (hf : f ∈ fs) : ∃ x, es.find? (·.1 == f.1) = some (f.1, x) ∧ R x f.2 := by
  induction h with
  | nil => cases hf
  | @cons e g es fs first _ ih =>
    obtain ⟨m, x⟩ := e
    obtain ⟨n, y⟩ := g
    obtain ⟨rfl : m = n, hR : R x y⟩ := first
    obtain ⟨hnew, hnodup⟩ := List.nodup_cons.1 hnodup
    rcases List.mem_cons.1 hf with rfl | hmem
    · exact ⟨x, by simp, hR⟩
    · have hne : m ≠ f.1 := fun same => hnew (List.mem_map.2 ⟨f, hmem, same.symm⟩)
      rw [List.find?_cons_of_neg (by simpa using hne)]
      exact ih hnodup hmem

/-- Types without alternatives fit each other if they are alike in components that fit. -/
theorem Fits.of_alike (h : Alike (fun x y => accepts x y = true ∧ accepts y x = true) s.bare t.bare)
    (hunion : ∀ ts, s.bare ≠ .union ts) (hall : acceptsAll t = false)
    (hfields : ∀ fs, t.bare = .record fs → (fs.map (·.1)).Nodup) : c.Fits accepts s t := by
  generalize hs : s.bare = a at h hunion
  generalize ht : t.bare = b at h hfields
  cases h with
  | primitive => exact .primitive hs ht
  | any | unknown => simp [acceptsAll, ht] at hall
  | named name => exact .named hs ht (by simp [isSubtype])
  | buffer => exact .buffer hs ht
  | array h => exact .array hs ht h.1
  | promise h => exact .promise hs ht h.1
  | union => exact absurd rfl (hunion _)
  | function hparams hreturns hvoid =>
    refine .function hs ht (acceptsCalls_of_accepts (hparams.imp fun p q h => ?_)) (.inr hreturns.1)
    exact ⟨h.1.2, h.2⟩
  | record h =>
    refine .record hs ht fun f hf => ?_
    have h := h.imp fun _ _ h => And.imp_right And.left h
    exact exists_find?_of_nodup (R := fun x y => accepts x y = true) h (hfields _ rfl) hf

theorem alike_refl :
    ∀ t : TypeExpr, Alike (fun x y => x = y ∧ x ∈ t.components) t.bare t.bare
  | .nullable inner => alike_refl inner
  | .nonNull inner => alike_refl inner
  | .primitive kind => .primitive kind
  | .any => .any
  | .unknown => .unknown
  | .named name => .named name
  | .buffer kind => .buffer kind
  | .array x => .array ⟨rfl, List.mem_singleton_self x⟩
  | .promise x => .promise ⟨rfl, List.mem_singleton_self x⟩
  | .union _ => .union (List.forall₂_same.2 fun _ hx => ⟨rfl, hx⟩)
  | .function _ _ => by
    refine .function (List.forall₂_same.2 fun p hp => ?_) ⟨rfl, List.mem_cons_self⟩ rfl
    exact ⟨⟨rfl, List.mem_cons_of_mem _ (List.mem_map_of_mem hp)⟩, rfl⟩
  | .record _ => .record (List.forall₂_same.2 fun _ he => ⟨rfl, rfl, List.mem_map_of_mem he⟩)

/-- A fit stays one if the components that were accepted still are. -/
theorem Fits.imp
    (left : ∀ x ∈ s.components, accepts x t = true → accepts' x t = true)
    (right : ∀ y ∈ t.components, accepts s y = true → accepts' s y = true)
    (both : ∀ x ∈ s.components, ∀ y ∈ t.components, accepts x y = true → accepts' x y = true)
    (flipped : ∀ x ∈ s.components, ∀ y ∈ t.components, accepts y x = true → accepts' y x = true)
    (h : c.Fits accepts s t) : c.Fits accepts' s t := by
  refine h.map (alike_refl s) (alike_refl t) ?_ ?_ ?_ ?_
  · rintro x _ ⟨rfl, hx⟩
    exact left x hx
  · rintro y _ ⟨rfl, hy⟩
    exact right y hy
  · rintro x _ y _ ⟨rfl, hx⟩ ⟨rfl, hy⟩
    exact both x hx y hy
  · rintro x _ y _ ⟨rfl, hx⟩ ⟨rfl, hy⟩
    exact flipped x hx y hy

end Alike

/-! ### The room for comparisons -/

/-- More room loses nothing. -/
theorem isAssignableWithin_mono {room room' : Nat} (hle : room ≤ room')
    (h : c.isAssignableWithin room s t = true) : c.isAssignableWithin room' s t = true := by
  induction room generalizing room' s t with
  | zero =>
    cases room' with
    | zero => exact h
    | succ room' =>
      rw [isAssignableWithin_succ_iff]
      exact (isAssignableWithin_zero_iff.1 h).elim .same .all
  | succ room ih =>
    obtain ⟨room', rfl⟩ : ∃ n, room' = n + 1 := ⟨room' - 1, by omega⟩
    rw [isAssignableWithin_succ_iff] at h ⊢
    have more (x y : TypeExpr) : c.isAssignableWithin room x y = true →
        c.isAssignableWithin room' x y = true := ih (by omega)
    cases h with
    | same h => exact .same h
    | all h => exact .all h
    | unknown h => exact .unknown h
    | fits hnull h =>
      exact .fits hnull (h.imp (fun x _ => more x _) (fun y _ => more _ y)
        (fun x _ y _ => more x y) fun x _ y _ => more y x)

/-! ### Plain types -/

/-- Whether a type is neither without a known shape nor a function nor an alias. -/
def isPlainPart (c : Catalog) : TypeExpr → Bool
  | .any => false
  | .unknown => false
  | .function .. => false
  | .named name => (c.alias? name).isNone
  | _ => true

/-- Whether a type is made of primitives, names that are no aliases, buffers, arrays, promises,
unions and records. -/
def IsPlain (c : Catalog) (t : TypeExpr) : Prop := ∀ x ∈ t.parts, c.isPlainPart x = true

instance : Decidable (c.IsPlain t) := inferInstanceAs (Decidable (∀ x ∈ t.parts, _))

theorem followAliases_eq_self {seen : List String}
    (h : ∀ name, t.bare = .named name → c.alias? name = none) : c.followAliases seen t = t := by
  rw [followAliases]
  split
  · split
    · rfl
    · rename_i name hname _ haliased
      rw [h name hname] at haliased
      cases haliased
  · rfl

theorem dealiased_eq_self (h : ∀ name, t.bare = .named name → c.alias? name = none) :
    c.dealiased t = t :=
  followAliases_eq_self h

section Plain

variable (hs : c.IsPlain s) (ht : c.IsPlain t)

theorem IsPlain.of_mem_components {t : TypeExpr} (ht : c.IsPlain t) (h : x ∈ t.components) :
    c.IsPlain x :=
  fun y hy => ht y (TypeExpr.parts_subset_of_mem_components h hy)

include ht

theorem IsPlain.isPlainPart_bare : c.isPlainPart t.bare = true := ht _ (TypeExpr.bare_mem_parts t)

theorem IsPlain.dealiased : c.dealiased t = t := by
  refine dealiased_eq_self fun name hname => ?_
  have := ht.isPlainPart_bare
  rw [hname] at this
  exact Option.isNone_iff_eq_none.1 this

theorem IsPlain.not_acceptsAll : acceptsAll t = false := by
  have := ht.isPlainPart_bare
  unfold acceptsAll
  split <;> simp_all [isPlainPart]

theorem IsPlain.not_isUnknown : isUnknown t = false := by
  have := ht.isPlainPart_bare
  unfold isUnknown
  split <;> simp_all [isPlainPart]

include hs

/-- A plain type is assignable to another if they are equal, or null fits and the shapes do. -/
theorem assignableBy_iff_of_isPlain {accepts : TypeExpr → TypeExpr → Bool} :
    c.AssignableBy accepts s t ↔
      s = t ∨ (s.isNullable = true → t.isNullable = true) ∧ c.Fits accepts s t := by
  constructor
  · intro h
    cases h with
    | same h => exact .inl h
    | all h => simp [ht.not_acceptsAll] at h
    | unknown h => simp [hs.dealiased, hs.not_isUnknown] at h
    | fits hnull h =>
      rw [hs.dealiased, ht.dealiased] at hnull h
      exact .inr ⟨hnull, h⟩
  · rintro (h | ⟨hnull, h⟩)
    · exact .same h
    · exact .fits (by rwa [hs.dealiased, ht.dealiased]) (by rwa [hs.dealiased, ht.dealiased])

/-- Plain types are assignable if null fits and the shapes do. -/
theorem Fits.isAssignableWithin {room : Nat} (hnull : s.isNullable = true → t.isNullable = true)
    (h : c.Fits (c.isAssignableWithin room) s t) : c.isAssignableWithin (room + 1) s t = true :=
  isAssignableWithin_succ_iff.2 ((assignableBy_iff_of_isPlain hs ht).2 (.inr ⟨hnull, h⟩))

/-- Plain types need no more room than they have levels. -/
theorem isAssignableWithin_of_levels {room room' : Nat} (hroom : s.levels + t.levels < room)
    (h : c.isAssignableWithin room' s t = true) : c.isAssignableWithin room s t = true := by
  induction room generalizing room' s t with
  | zero => omega
  | succ room ih =>
    rw [isAssignableWithin_succ_iff]
    have h := isAssignableWithin_mono (Nat.le_succ room') h
    rw [isAssignableWithin_succ_iff, assignableBy_iff_of_isPlain hs ht] at h
    refine (assignableBy_iff_of_isPlain hs ht).2 (h.imp_right fun ⟨hnull, h⟩ => ⟨hnull, ?_⟩)
    have less {t x : TypeExpr} (hx : x ∈ t.components) := TypeExpr.levels_lt_of_mem_components hx
    refine h.imp (fun x hx => ?_) (fun y hy => ?_) (fun x hx y hy => ?_) fun x hx y hy => ?_
    · have := less hx
      exact ih (hs.of_mem_components hx) ht (by omega)
    · have := less hy
      exact ih hs (ht.of_mem_components hy) (by omega)
    · have := less hx
      have := less hy
      exact ih (hs.of_mem_components hx) (ht.of_mem_components hy) (by omega)
    · have := less hx
      have := less hy
      exact ih (ht.of_mem_components hy) (hs.of_mem_components hx) (by omega)

end Plain

end Catalog

end ApiCatalog
