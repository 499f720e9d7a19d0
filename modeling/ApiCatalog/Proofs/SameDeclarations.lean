import ApiCatalog.Proofs.Expansion
import ApiCatalog.Proofs.UnseenChanges

/-!
# Catalogs that declare the same

The order in which a catalog has its declarations is shown to whoever lists them, and has no part in
any question about a name. Of two catalogs that have the same types and enumerations under the same
names, in whatever order, the derived facts agree, and so do search, aliases and assignability, one
question after the other. Then the same is wrong at every site of their declarations, and validation
finds the same problems, in the order of each.

Main statements: `Catalog.DeclareAlike.cyclic`, `Catalog.DeclareAlike.perm_problems`.
-/

namespace ApiCatalog.Catalog

variable {c c' : Catalog}

/-- Whether two catalogs have the same declarations, in any order. -/
structure DeclareAlike (c c' : Catalog) : Prop where
  built : c.IsBuilt
  built' : c'.IsBuilt
  type : ∀ name, c'.type? name = c.type? name
  enum : ∀ name, c'.enum? name = c.enum? name

namespace DeclareAlike

variable (h : c.DeclareAlike c')
include h

theorem agreeOn : AgreeOn Set.univ c c' := ⟨fun _ _ _ _ => trivial, fun name _ => h.type name⟩

theorem answersAlike (type : String) : c'.AnswersAlike c type :=
  h.agreeOn.answersAlike h.built h.built' trivial

theorem contains_types (name : String) : c'.types.contains name = c.types.contains name :=
  congrArg Option.isSome (h.type name)

theorem contains (name : String) : c'.contains name = c.contains name :=
  congrArg₂ (· || ·) (h.contains_types name) (congrArg Option.isSome (h.enum name))

theorem cyclic : c'.cyclic = c.cyclic := by
  refine NameMap.ext_get? fun name => ?_
  have indexed : (c'.cyclic.get? name).isSome = (c.cyclic.get? name).isSome :=
    (h.answersAlike name).isCyclic
  cases hc : c.cyclic.get? name <;> cases hc' : c'.cyclic.get? name <;> simp_all

/-! ### Aliases and assignability -/

theorem alias? (name : String) : c'.alias? name = c.alias? name := by
  rw [Catalog.alias?, Catalog.alias?, h.type]

theorem followAliases (seen : List String) (t : TypeExpr) :
    c'.followAliases seen t = c.followAliases seen t := by
  fun_induction Catalog.followAliases c seen t with
  | case1 seen t name hname absent =>
    refine followAliases_eq_self fun m hm => ?_
    rw [hname] at hm
    cases hm
    rw [h.alias?, absent]
  | case2 seen t name hname target aliased met =>
    exact followAliases_of_mem hname met
  | case3 seen t name hname target aliased new _ ih =>
    rw [followAliases_of_alias? hname ((h.alias? name).trans aliased) new, ih]
  | case4 seen t other => exact followAliases_eq_self fun name hname => absurd hname (other name)

theorem isAssignableWithin (room : Nat) : c'.isAssignableWithin room = c.isAssignableWithin room := by
  have dealiased : c'.dealiased = c.dealiased := funext (h.followAliases [])
  have isSubtype (sub : String) : c'.isSubtype sub = c.isSubtype sub :=
    funext (h.answersAlike sub).isSubtype
  induction room with
  | zero => rfl
  | succ room ih =>
    funext s t
    rw [Catalog.isAssignableWithin, Catalog.isAssignableWithin, dealiased, ih]
    simp only [isSubtype]

theorem isAssignable (s t : TypeExpr) : c'.isAssignable s t = c.isAssignable s t :=
  congrFun (congrFun (h.isAssignableWithin _) s) t

theorem paramFault? (olds news : List Parameter) :
    c'.paramFault? olds news = c.paramFault? olds news := by
  fun_induction Catalog.paramFault? c olds news <;> simp_all [Catalog.paramFault?, h.isAssignable]

theorem overrideFault? (inherited overriding : Member) :
    c'.overrideFault? inherited overriding = c.overrideFault? inherited overriding := by
  unfold Catalog.overrideFault?
  simp only [h.isAssignable, h.paramFault?]

/-! ### Validation -/

theorem refersToDeclared (r : Reference) : c'.refersToDeclared r = c.refersToDeclared r := by
  unfold Catalog.refersToDeclared
  simp only [h.contains, h.enum, (h.answersAlike r.type).memberNamed]

/-- The same is wrong at every site. -/
theorem problemAt? (s : Site) : c'.problemAt? s = c.problemAt? s := by
  cases s with
  | chain d => simp only [Catalog.problemAt?, (h.answersAlike d.name).cycle?]
  | parent | capability => simp only [Catalog.problemAt?, h.contains_types]
  | replacement => simp only [Catalog.problemAt?, h.refersToDeclared]
  | mention => simp only [Catalog.problemAt?, h.contains]
  | member | symbol => rfl
  | mutation d => simp only [Catalog.problemAt?, (h.answersAlike d.name).memberNamed]
  | override d =>
    simp only [Catalog.problemAt?, (h.answersAlike d.name).inheritedMember?, h.overrideFault?]

/-- Both have the same types, in orders of their own. -/
theorem perm_keys : c'.types.keys.Perm c.types.keys :=
  h.built'.isConsistent.perm_order h.built.isConsistent h.type

/-- The same problems are found in both, in orders of their own. -/
theorem perm_problems (enums : c'.enums.values.Perm c.enums.values) (checkNames : Bool) :
    (c'.problems checkNames).Perm (c.problems checkNames) := by
  rw [h.built.problems_eq, h.built'.problems_eq, funext h.problemAt?]
  have types := h.built'.isConsistent.perm_values h.built.isConsistent h.type
  exact ((types.flatMap_right _).append (enums.flatMap_right _)).filterMap _

end DeclareAlike

end ApiCatalog.Catalog
