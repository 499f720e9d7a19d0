import ApiCatalog.Proofs.Substitution

/-!
# Methods as functions

A method may stand in the place of another, and so may its value, which is a function, where a
function of the type of the other is expected. Both are decided parameter by parameter: each
argument must be accepted, and one that is never passed must not be needed. Whether an argument that
may be left out still may be is asked only where methods are compared; between functions it may
become required.

A function has one level of nesting more than its parameters and its result. So the two decisions
leave different room for these, which is the same where they nest no deeper than comparisons go.

Main statement: `Catalog.overrideFault?_eq_none_iff_isAssignable`.
-/

namespace ApiCatalog

/-! ### The values of methods -/

/-- The parameters of the function that is the value of a method with the given ones. -/
def valueParams (ps : List Parameter) : List (TypeExpr × Bool) :=
  ps.map fun p => (p.type, p.optional)

/-- The first of some parameters that must be passed where, in its place, one of the others may be
left out. -/
def newlyRequired? (olds news : List Parameter) : Option Parameter :=
  ((olds.zip news).find? fun e => e.1.optional && !e.2.optional).map (·.2)

/-- A method has parameters and a result, which make up its value and are all the types in it. -/
theorem Member.exists_result_of_isMethod {m : Member} (h : m.isMethod = true) :
    ∃ result mutates, m.kind = .method m.params result mutates ∧
      m.typeAsValue = .function (valueParams m.params) result ∧
        ∀ t, m.Writes t ↔ (∃ p ∈ m.params, t = p.type) ∨ t = result := by
  obtain ⟨name, kind, deprecated, see⟩ := m
  cases kind with
  | property => cases h
  | method params result mutates =>
    refine ⟨result, mutates, rfl, rfl, fun t => ?_⟩
    rw [Member.writes_iff]
    rfl

namespace Catalog

variable {c : Catalog} {s t x : TypeExpr} {m n room room' : Nat}

/-! ### How deep a type nests -/

/-- Whether the components in a type nest at most so deep, where a reference to an alias counts as
the type that it stands for. -/
def NestsWithin (c : Catalog) : Nat → TypeExpr → Prop
  | 0, t => (c.dealiased t).components = []
  | n + 1, t => ∀ x ∈ (c.dealiased t).components, c.NestsWithin n x

instance decidableNestsWithin (c : Catalog) : ∀ n t, Decidable (c.NestsWithin n t)
  | 0, t => inferInstanceAs (Decidable ((c.dealiased t).components = []))
  | n + 1, t =>
    have := decidableNestsWithin c n
    inferInstanceAs (Decidable (∀ x ∈ (c.dealiased t).components, c.NestsWithin n x))

theorem nestsWithin_dealiased : c.NestsWithin n (c.dealiased t) ↔ c.NestsWithin n t := by
  cases n <;> rw [NestsWithin, NestsWithin, dealiased_dealiased]

/-- The components of what a type stands for nest less deep than the type. -/
theorem NestsWithin.exists_lt (h : c.NestsWithin n t) (hx : x ∈ (c.dealiased t).components) :
    ∃ m < n, c.NestsWithin m x := by
  cases n with
  | zero =>
    rw [NestsWithin] at h
    rw [h] at hx
    cases hx
  | succ n => exact ⟨n, Nat.lt_succ_self n, h x hx⟩

/-- Types need no more room than they nest. -/
theorem isAssignableWithin_of_nestsWithin (hs : c.NestsWithin m s) (ht : c.NestsWithin n t)
    (hroom : m + n < room) (h : c.isAssignableWithin room' s t = true) :
    c.isAssignableWithin room s t = true := by
  induction room generalizing room' s t m n with
  | zero => omega
  | succ room ih =>
    have h := isAssignableWithin_mono (Nat.le_succ room') h
    rw [isAssignableWithin_succ_iff] at h ⊢
    cases h with
    | same h => exact .same h
    | all h => exact .all h
    | unknown h => exact .unknown h
    | fits hnull h =>
      refine .fits hnull (h.imp (fun x hx => ?_) (fun y hy => ?_) (fun x hx y hy => ?_)
        fun x hx y hy => ?_)
      · obtain ⟨k, hk, hx⟩ := hs.exists_lt hx
        exact ih hx (nestsWithin_dealiased.2 ht) (by omega)
      · obtain ⟨k, hk, hy⟩ := ht.exists_lt hy
        exact ih (nestsWithin_dealiased.2 hs) hy (by omega)
      · obtain ⟨k, hk, hx⟩ := hs.exists_lt hx
        obtain ⟨l, hl, hy⟩ := ht.exists_lt hy
        exact ih hx hy (by omega)
      · obtain ⟨k, hk, hx⟩ := hs.exists_lt hx
        obtain ⟨l, hl, hy⟩ := ht.exists_lt hy
        exact ih hy hx (by omega)

/-! ### Functions -/

theorem isAssignableWithin_self (c : Catalog) (room : Nat) (t : TypeExpr) :
    c.isAssignableWithin room t t = true := by
  cases room <;> simp [isAssignableWithin]

/-- Functions are compared by their parameters and results. -/
theorem isAssignableWithin_function_iff {ps qs : List (TypeExpr × Bool)} {a b : TypeExpr} :
    c.isAssignableWithin (room + 1) (.function ps a) (.function qs b) = true ↔
      acceptsCalls (c.isAssignableWithin room) ps qs = true ∧
        (b.isVoid = true ∨ c.isAssignableWithin room a b = true) := by
  have self (f : TypeExpr) (hf : f = .function ps a ∨ f = .function qs b) : c.dealiased f = f :=
    dealiased_eq_self fun n hn => by rcases hf with rfl | rfl <;> cases hn
  rw [isAssignableWithin_succ_iff]
  constructor
  · intro h
    cases h with
    | same h =>
      cases h
      refine ⟨acceptsCalls_of_accepts (List.forall₂_same.2 fun p _ => ⟨?_, rfl⟩), .inr ?_⟩
      · exact isAssignableWithin_self c room p.1
      · exact isAssignableWithin_self c room a
    | all h => cases h
    | unknown h =>
      rw [self _ (.inl rfl)] at h
      cases h
    | fits _ h =>
      rw [self _ (.inl rfl), self _ (.inr rfl)] at h
      cases h with
      | function hs ht hparams hreturns =>
        cases hs
        cases ht
        exact ⟨hparams, hreturns⟩
      | alternative _ ht => cases ht
      | _ hs => cases hs
  · rintro ⟨hparams, hreturns⟩
    refine .fits ?_ ?_
    · rw [self _ (.inl rfl)]
      exact fun hnull => by cases hnull
    · rw [self _ (.inl rfl), self _ (.inr rfl)]
      exact .function rfl rfl hparams hreturns

/-! ### Calls -/

/-- Functions that take the calls of others do so as far as their parameters accept the same. -/
theorem acceptsCalls_imp {accepts accepts' : TypeExpr → TypeExpr → Bool}
    {ps qs : List (TypeExpr × Bool)}
    (imp : ∀ p ∈ ps, ∀ q ∈ qs, accepts q.1 p.1 = true → accepts' q.1 p.1 = true)
    (h : acceptsCalls accepts ps qs = true) : acceptsCalls accepts' ps qs = true := by
  refine acceptsCalls_of_forall₂ (R := fun x x' => x = x' ∧ ∃ p ∈ ps, p.1 = x)
    (S := fun y y' => y = y' ∧ ∃ q ∈ qs, q.1 = y) (List.forall₂_same.2 fun p hp => ?_)
    (List.forall₂_same.2 fun q hq => ?_) ?_ h
  · exact ⟨⟨rfl, p, hp, rfl⟩, rfl⟩
  · exact ⟨⟨rfl, q, hq, rfl⟩, rfl⟩
  · rintro _ _ _ _ ⟨rfl, p, hp, rfl⟩ ⟨rfl, q, hq, rfl⟩
    exact imp p hp q hq

/-- Parameters that take the calls of others as a function does have no fault but that one may be
newly required. -/
theorem paramFault?_of_acceptsCalls {olds news : List Parameter}
    (h : acceptsCalls c.isAssignable (valueParams news) (valueParams olds) = true) :
    c.paramFault? olds news =
      (newlyRequired? olds news).map fun p => .paramNotOptional p.name := by
  fun_induction paramFault? c olds news with
  | case1 olds => cases olds <;> rfl
  | case2 new rest hoptional ih =>
    simp only [valueParams, List.map_cons, List.map_nil, acceptsCalls, Bool.and_eq_true] at h
    rw [ih h.2]
    rfl
  | case3 new rest hrequired =>
    simp only [valueParams, List.map_cons, List.map_nil, acceptsCalls, Bool.and_eq_true] at h
    exact absurd h.1 hrequired
  | case4 old olds new rest hrefused =>
    simp only [valueParams, List.map_cons, acceptsCalls, Bool.and_eq_true] at h
    simp [h.1] at hrefused
  | case5 old olds new rest _ hrequired =>
    simp [newlyRequired?, hrequired]
  | case6 old olds new rest _ hoptional ih =>
    simp only [valueParams, List.map_cons, acceptsCalls, Bool.and_eq_true] at h
    rw [ih h.2]
    simp [newlyRequired?, hoptional]

theorem AcceptsParams.acceptsCalls {olds news : List Parameter} (h : c.AcceptsParams olds news) :
    acceptsCalls c.isAssignable (valueParams news) (valueParams olds) = true := by
  induction h with
  | nil olds => cases olds <;> rfl
  | extra optional _ ih =>
    simp only [valueParams, List.map_cons, List.map_nil, Catalog.acceptsCalls, Bool.and_eq_true]
    exact ⟨optional, ih⟩
  | cons type _ _ ih =>
    simp only [valueParams, List.map_cons, Catalog.acceptsCalls, Bool.and_eq_true]
    exact ⟨type, ih⟩

/-! ### Methods -/

section Methods

variable {old new : Member}

/-- A method whose value is assignable to that of another fits in its place, unless it requires an
argument that calls of the other may leave out. -/
theorem overrideFault?_of_isAssignable (hold : old.isMethod = true) (hnew : new.isMethod = true)
    (h : c.isAssignable new.typeAsValue old.typeAsValue = true) :
    c.overrideFault? old new =
      (newlyRequired? old.params new.params).map fun p => .paramNotOptional p.name := by
  obtain ⟨result, _, hkind, hvalue, -⟩ := Member.exists_result_of_isMethod hold
  obtain ⟨result', _, hkind', hvalue', -⟩ := Member.exists_result_of_isMethod hnew
  rw [hvalue, hvalue', isAssignable, assignabilityDepth, isAssignableWithin_function_iff] at h
  obtain ⟨hparams, hreturns⟩ := h
  have more (s t : TypeExpr) (h : c.isAssignableWithin 31 s t = true) : c.isAssignable s t = true :=
    isAssignableWithin_mono (by decide) h
  have returns : ¬(!result.isVoid && !c.isAssignable result' result) = true := by
    simpa using fun hvoid => more _ _ (hreturns.resolve_left (by simp [hvoid]))
  rw [overrideFault?, hkind, hkind']
  dsimp only
  rw [if_neg returns]
  exact paramFault?_of_acceptsCalls (acceptsCalls_imp (fun p _ q _ => more _ _) hparams)

/-- The value of a method that fits in the place of another is assignable to the value of that, if
the types in both nest no deeper than comparisons go. -/
theorem isAssignable_of_overrideFault? (hold : old.isMethod = true) (hnew : new.isMethod = true)
    (holdTypes : ∀ t, old.Writes t → c.NestsWithin 15 t)
    (hnewTypes : ∀ t, new.Writes t → c.NestsWithin 15 t)
    (h : c.overrideFault? old new = none) :
    c.isAssignable new.typeAsValue old.typeAsValue = true := by
  obtain ⟨result, _, hkind, hvalue, hwrites⟩ := Member.exists_result_of_isMethod hold
  obtain ⟨result', _, hkind', hvalue', hwrites'⟩ := Member.exists_result_of_isMethod hnew
  simp only [hwrites] at holdTypes
  simp only [hwrites'] at hnewTypes
  rw [overrideFault?_eq_none_iff, hkind, hkind'] at h
  obtain ⟨hreturns, hparams⟩ := h
  have less {s t : TypeExpr} (hs : c.NestsWithin 15 s) (ht : c.NestsWithin 15 t)
      (h : c.isAssignable s t = true) : c.isAssignableWithin 31 s t = true :=
    isAssignableWithin_of_nestsWithin hs ht (by decide) h
  rw [hvalue, hvalue', isAssignable, assignabilityDepth, isAssignableWithin_function_iff]
  constructor
  · refine acceptsCalls_imp (fun p hp q hq => ?_) hparams.acceptsCalls
    obtain ⟨new, hnewMem, rfl⟩ := List.mem_map.1 hp
    obtain ⟨old, holdMem, rfl⟩ := List.mem_map.1 hq
    exact less (holdTypes _ (.inl ⟨old, holdMem, rfl⟩)) (hnewTypes _ (.inl ⟨new, hnewMem, rfl⟩))
  · exact hreturns.imp_right (less (hnewTypes _ (.inr rfl)) (holdTypes _ (.inr rfl)))

/-- A method fits in the place of another exactly if its value is assignable to the value of that
and it requires no argument that calls of the other may leave out. Such an argument is the one
thing that assignability of the values does not look at. -/
theorem overrideFault?_eq_none_iff_isAssignable (hold : old.isMethod = true)
    (hnew : new.isMethod = true) (holdTypes : ∀ t, old.Writes t → c.NestsWithin 15 t)
    (hnewTypes : ∀ t, new.Writes t → c.NestsWithin 15 t) :
    (c.overrideFault? old new = none ↔
      c.isAssignable new.typeAsValue old.typeAsValue = true ∧
        newlyRequired? old.params new.params = none) ∧
    (c.isAssignable new.typeAsValue old.typeAsValue = true →
      c.overrideFault? old new =
        (newlyRequired? old.params new.params).map fun p => .paramNotOptional p.name) := by
  have verdict := overrideFault?_of_isAssignable (c := c) hold hnew
  refine ⟨⟨fun h => ?_, fun ⟨h, required⟩ => ?_⟩, verdict⟩
  · have assignable := isAssignable_of_overrideFault? hold hnew holdTypes hnewTypes h
    rw [verdict assignable, Option.map_eq_none_iff] at h
    exact ⟨assignable, h⟩
  · rw [verdict h, required]
    rfl

end Methods

/-- A method that takes numbers in the place of one that takes levels, which are numbers, and one
argument more. -/
theorem overrideFault?_eq_none_iff_isAssignable_samples :
    let level := TypeDeclaration.ofTypedef "Level" (.primitive .number)
    let samples := TypeDeclaration.ofTypedef "Samples" (.array (.named "Level"))
    let c := ofDeclarations [level, samples] []
    let old := Member.method "play" [⟨"samples", .named "Samples", true⟩] .void
    let new := Member.method "play"
      [⟨"samples", .array (.primitive .number), true⟩, ⟨"gain", .named "Level", true⟩]
      (.primitive .number)
    c.isAssignable new.typeAsValue old.typeAsValue = true ∧ c.overrideFault? old new = none := by
  intro level samples c old new
  have holdTypes : ∀ t, old.Writes t → c.NestsWithin 15 t := by
    simp only [Member.writes_iff, old, Member.method, List.mem_singleton]
    rintro t (⟨p, rfl, rfl⟩ | rfl) <;> decide +kernel
  have hnewTypes : ∀ t, new.Writes t → c.NestsWithin 15 t := by
    simp only [Member.writes_iff, new, Member.method, List.mem_cons, List.not_mem_nil, or_false]
    rintro t (⟨p, rfl | rfl, rfl⟩ | rfl) <;> decide +kernel
  have h : c.isAssignable new.typeAsValue old.typeAsValue = true := by decide +kernel
  have hold : old.isMethod = true := rfl
  have hnew : new.isMethod = true := rfl
  have same := overrideFault?_eq_none_iff_isAssignable hold hnew holdTypes hnewTypes
  exact ⟨h, same.1.2 ⟨h, rfl⟩⟩

/-- A method that requires an argument does not fit in the place of one that may be called without,
but its value is assignable to the value of that. -/
theorem isAssignable_of_newlyRequired :
    let old := Member.method "m" [⟨"x", .primitive .number, true⟩] .void
    let new := Member.method "m" [⟨"x", .primitive .number, false⟩] .void
    (∀ t, old.Writes t ∨ new.Writes t → t.levels ≤ 15) ∧
      empty.isAssignable new.typeAsValue old.typeAsValue = true ∧
        empty.overrideFault? old new = some (.paramNotOptional "x") := by
  refine ⟨?_, by decide +kernel, by decide +kernel⟩
  simp [Member.writes_iff, Member.method, TypeExpr.void, TypeExpr.levels]

end Catalog

end ApiCatalog
