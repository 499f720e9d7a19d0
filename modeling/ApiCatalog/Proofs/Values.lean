import ApiCatalog.Number.Binary64
import ApiCatalog.Proofs.Comparison
import ApiCatalog.Proofs.SearchOrder

/-!
# The values of a type

`Catalog.HasType` says which values a type has. Qualifiers, and whether an alternative of a union
is nullable, decide about null alone; every other value belongs to a type by its shape. An object
belongs to the types that its own type inherits from, and a buffer also to those that its
platform name inherits from.

Main statement: `Catalog.hasType_of_isAssignable`, every value of a type belongs to the types that
it is assignable to.
-/

namespace ApiCatalog

/-- A value that a declared place can hold. Of an object only its type counts. -/
inductive Value
  | null
  | undefined
  | void
  | boolean (value : Bool)
  | number (value : Binary64)
  | string (text : String)
  | object (type : String)
  | buffer (kind : BufferElement)
  | array (elements : List Value)
  | promise (payload : Value)
  | record (fields : List (String × Value))

/-- The primitive type of a value other than null. -/
def Value.primitive? : Value → Option Primitive
  | .undefined => some .undefined
  | .void => some .void
  | .boolean _ => some .boolean
  | .number _ => some .number
  | .string _ => some .string
  | _ => none

namespace Catalog

mutual

/-- Whether a value belongs to a type. -/
inductive HasType (c : Catalog) : Value → TypeExpr → Prop
  | null {t : TypeExpr} (h : t.isNullable = true) : HasType c .null t
  | nullable {v : Value} {t : TypeExpr} (hv : v ≠ .null) (h : HasType c v t) :
      HasType c v (.nullable t)
  | nonNull {v : Value} {t : TypeExpr} (hv : v ≠ .null) (h : HasType c v t) :
      HasType c v (.nonNull t)
  | union {v : Value} {alternatives : List TypeExpr} {t : TypeExpr} (hv : v ≠ .null)
      (ht : t ∈ alternatives) (h : HasType c v t) : HasType c v (.union alternatives)
  | primitive {v : Value} {kind : Primitive} (h : v.primitive? = some kind) :
      HasType c v (.primitive kind)
  | object {type name : String} (h : c.isSubtype type name = true) :
      HasType c (.object type) (.named name)
  | view {kind : BufferElement} {name : String} (h : c.isSubtype kind.viewName name = true) :
      HasType c (.buffer kind) (.named name)
  | buffer (kind : BufferElement) : HasType c (.buffer kind) (.buffer kind)
  | array {vs : List Value} {t : TypeExpr} (h : ∀ v ∈ vs, HasType c v t) :
      HasType c (.array vs) (.array t)
  | promise {v : Value} {t : TypeExpr} (h : HasType c v t) : HasType c (.promise v) (.promise t)
  | record {values : List (String × Value)} {fields : List (String × TypeExpr)}
      (h : HasFields c values fields) : HasType c (.record values) (.record fields)

/-- Whether a record of values has every field, with a value that belongs to its type. -/
inductive HasFields (c : Catalog) : List (String × Value) → List (String × TypeExpr) → Prop
  | nil (values : List (String × Value)) : HasFields c values []
  | cons {values : List (String × Value)} {fields : List (String × TypeExpr)} {name : String}
      {v : Value} {t : TypeExpr} (hv : values.lookup name = some v) (h : HasType c v t)
      (rest : HasFields c values fields) : HasFields c values ((name, t) :: fields)

end

variable {c : Catalog} {v : Value} {s t : TypeExpr}

theorem hasFields_iff {values : List (String × Value)} {fields : List (String × TypeExpr)} :
    c.HasFields values fields ↔
      ∀ e ∈ fields, ∃ v, values.lookup e.1 = some v ∧ c.HasType v e.2 := by
  induction fields with
  | nil => exact ⟨fun _ => by simp, fun _ => .nil values⟩
  | cons e fields ih =>
    rw [List.forall_mem_cons, ← ih]
    constructor
    · intro h
      cases h with
      | cons hv h rest => exact ⟨⟨_, hv, h⟩, rest⟩
    · rintro ⟨⟨v, hv, h⟩, rest⟩
      exact .cons hv h rest

/-! ### Null and the other values -/

theorem hasType_null_iff : c.HasType .null t ↔ t.isNullable = true := by
  refine ⟨fun h => ?_, .null⟩
  cases h with
  | null h => exact h
  | nullable hv => exact (hv rfl).elim
  | nonNull hv => exact (hv rfl).elim
  | union hv => exact (hv rfl).elim
  | primitive h => cases h

/-- Qualifiers do not matter to values other than null. -/
theorem hasType_bare_iff (hv : v ≠ .null) : ∀ t : TypeExpr, c.HasType v t.bare ↔ c.HasType v t
  | .nullable inner => by
    refine (hasType_bare_iff hv inner).trans ⟨.nullable hv, fun h => ?_⟩
    cases h with
    | null => exact (hv rfl).elim
    | nullable _ h => exact h
  | .nonNull inner => by
    refine (hasType_bare_iff hv inner).trans ⟨.nonNull hv, fun h => ?_⟩
    cases h with
    | null => exact (hv rfl).elim
    | nonNull _ h => exact h
  | .primitive _ | .any | .unknown | .named _ | .array _ | .buffer _ | .union _ | .promise _
  | .function _ _ | .record _ => Iff.rfl

/-- A value other than null belongs to a type as it belongs to the type without qualifiers. -/
theorem HasType.of_bare {b : TypeExpr} (hv : v ≠ .null) (hb : t.bare = b) (h : c.HasType v b) :
    c.HasType v t :=
  (hasType_bare_iff hv t).1 (hb ▸ h)

/-! ### Soundness -/

/-- Values other than null go where the shape of their type fits, if that holds of the
components. -/
theorem Fits.hasType {accepts : TypeExpr → TypeExpr → Bool} (hkeyed : IsKeyed c.types)
    (h : c.Fits accepts s t) (hs : c.IsPlain s)
    (left : ∀ x ∈ s.components, accepts x t = true → ∀ v, c.HasType v x → c.HasType v t)
    (right : ∀ y ∈ t.components, accepts s y = true → ∀ v, c.HasType v s → c.HasType v y)
    (both : ∀ x ∈ s.components, ∀ y ∈ t.components, accepts x y = true →
      ∀ v, c.HasType v x → c.HasType v y)
    (hv : v ≠ .null) (hvs : c.HasType v s) : c.HasType v t := by
  have hbare := (hasType_bare_iff hv s).2 hvs
  cases h with
  | null hsb =>
    rw [hsb] at hbare
    cases hbare with
    | null => exact (hv rfl).elim
    | primitive h => cases v <;> cases h
  | alternatives hsb h =>
    rw [hsb] at hbare
    cases hbare with
    | null => exact (hv rfl).elim
    | @union _ _ x _ hx hvx => exact left x (by simp [TypeExpr.components, hsb, hx]) (h x hx) v hvx
  | @alternative _ y _ htb hy h =>
    have hvy := right y (by simp [TypeExpr.components, htb, hy]) h v hvs
    exact .of_bare hv htb (.union hv hy hvy)
  | primitive hsb htb => exact .of_bare hv htb (hsb ▸ hbare)
  | named hsb htb h =>
    rw [hsb] at hbare
    refine .of_bare hv htb ?_
    cases hbare with
    | null => exact (hv rfl).elim
    | object hsub => exact .object (isSubtype_trans hkeyed hsub h)
    | view hsub => exact .view (isSubtype_trans hkeyed hsub h)
  | buffer hsb htb => exact .of_bare hv htb (hsb ▸ hbare)
  | view hsb htb =>
    rw [hsb] at hbare
    refine .of_bare hv htb ?_
    cases hbare with
    | null => exact (hv rfl).elim
    | buffer => exact .view (by simp [isSubtype])
  | @array x y hsb htb h =>
    rw [hsb] at hbare
    refine .of_bare hv htb ?_
    cases hbare with
    | null => exact (hv rfl).elim
    | array hvs =>
      refine .array fun v hv => both x ?_ y ?_ h v (hvs v hv)
      · simp [TypeExpr.components, hsb]
      · simp [TypeExpr.components, htb]
  | @promise x y hsb htb h =>
    rw [hsb] at hbare
    refine .of_bare hv htb ?_
    cases hbare with
    | null => exact (hv rfl).elim
    | promise hvx =>
      refine .promise (both x ?_ y ?_ h _ hvx)
      · simp [TypeExpr.components, hsb]
      · simp [TypeExpr.components, htb]
  | function hsb =>
    have plain := hs.isPlainPart_bare
    rw [hsb] at plain
    cases plain
  | record hsb htb h =>
    rw [hsb] at hbare
    refine .of_bare hv htb ?_
    cases hbare with
    | null => exact (hv rfl).elim
    | record hfields =>
      refine .record (hasFields_iff.2 fun e he => ?_)
      obtain ⟨x, hx, haccepts⟩ := h e he
      have hmem := List.mem_of_find?_eq_some hx
      obtain ⟨v, hlookup, hvx⟩ := hasFields_iff.1 hfields _ hmem
      refine ⟨v, hlookup, both x ?_ e.2 ?_ haccepts v hvx⟩
      · rw [TypeExpr.components, hsb]
        exact List.mem_map_of_mem hmem
      · rw [TypeExpr.components, htb]
        exact List.mem_map_of_mem he

/-- One comparison after another, from the inside out. -/
theorem hasType_of_isAssignableWithin (hkeyed : IsKeyed c.types) {room : Nat}
    (h : c.isAssignableWithin room s t = true) (hs : c.IsPlain s) (ht : c.IsPlain t)
    (hv : c.HasType v s) : c.HasType v t := by
  induction room generalizing s t v with
  | zero =>
    rcases isAssignableWithin_zero_iff.1 h with rfl | h
    · exact hv
    · simp [ht.not_acceptsAll] at h
  | succ room ih =>
    rw [isAssignableWithin_succ_iff, assignableBy_iff_of_isPlain hs ht] at h
    rcases h with rfl | ⟨hnull, h⟩
    · exact hv
    · by_cases present : v = .null
      · subst present
        exact .null (hnull (hasType_null_iff.1 hv))
      · refine h.hasType hkeyed hs (fun x hx h v => ?_) (fun y hy h v => ?_)
          (fun x hx y hy h v => ?_) present hv
        · exact ih h (hs.of_mem_components hx) ht
        · exact ih h hs (ht.of_mem_components hy)
        · exact ih h (hs.of_mem_components hx) (ht.of_mem_components hy)

/-- If a type is assignable to another, then all of its values belong to that one. -/
theorem hasType_of_isAssignable (hkeyed : IsKeyed c.types) (hs : c.IsPlain s) (ht : c.IsPlain t)
    (h : c.isAssignable s t = true) : ∀ v, c.HasType v s → c.HasType v t :=
  fun _ => hasType_of_isAssignableWithin hkeyed h hs ht

/-- An array of records with a field of a subtype is one of records or null. -/
theorem hasType_of_isAssignable_array :
    let c := ofDeclarations
      [TypeDeclaration.ofClass "Node", (TypeDeclaration.ofClass "Gain").withParent "Node"] []
    let s := TypeExpr.array
      (.record [("node", .nonNull (.named "Gain")), ("level", .primitive .number)])
    let t := TypeExpr.nullable
      (.array (.union [.record [("node", .named "Node")], .primitive .null]))
    c.isAssignable s t = true ∧ ∀ v, c.HasType v s → c.HasType v t := by
  intro c s t
  have hkeyed : IsKeyed c.types := OrderedMap.IsKeyed.ofList _
  have sub : c.isSubtype "Gain" "Node" = true :=
    isSubtype_of_declared hkeyed rfl (by decide +kernel) (.inl rfl) rfl
  have node : c.isAssignableWithin 29 (.nonNull (.named "Gain")) (.named "Node") = true :=
    Fits.isAssignableWithin (by decide +kernel) (by decide +kernel) (by decide)
      (.named rfl rfl sub)
  have assignable : c.isAssignable s t = true := by
    refine Fits.isAssignableWithin (by decide +kernel) (by decide +kernel) (by decide)
      (.array rfl rfl ?_)
    refine Fits.isAssignableWithin (by decide +kernel) (by decide +kernel) (by decide)
      (.alternative (by simp [TypeExpr.bare]) rfl List.mem_cons_self ?_)
    exact Fits.isAssignableWithin (by decide +kernel) (by decide +kernel) (by decide)
      (.record rfl rfl (by simpa using node))
  exact ⟨assignable,
    hasType_of_isAssignable hkeyed (by decide +kernel) (by decide +kernel) assignable⟩

end Catalog

end ApiCatalog
