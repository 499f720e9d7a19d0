import Mathlib.Data.List.Count
import Mathlib.Data.List.Nodup
import ApiCatalog.Proofs.ProblemPlaces

/-!
# Cyclic chains of parents

Whoever follows the parents from a name comes to an end, at a type without a parent or at a name
that is not declared, or comes back to a type. In the second case the path up to there tells the
cycle, and this is the case of which the catalog keeps an index, which validation reports and in
which nothing is inherited.

A walk that has seen some names keeps an invariant, `Catalog.IsRevisit`, of the path that it
returns; each step adds a name in front of it.

Main statement: `Catalog.cycle?_spec`.
-/

namespace ApiCatalog.Catalog

open Relation

variable {c : Catalog} {name parent : String} {d : TypeDeclaration} {seen path : List String}

/-! ### The path -/

/-- Whether a path from a name leads from each type to its parent and is at a name for the first
time everywhere but at its end, which has been met on it or is among the names seen before. -/
structure IsRevisit (c : Catalog) (seen : List String) (name : String) (path : List String) :
    Prop where
  head : path.head? = some name
  linked : path.IsChain c.Extends
  distinct : path.dropLast.Nodup
  unseen : ∀ n ∈ path.dropLast, n ∉ seen
  again : ∃ last, path.getLast? = some last ∧ (last ∈ path.dropLast ∨ last ∈ seen)

theorem isRevisit_singleton (met : name ∈ seen) : c.IsRevisit seen name [name] where
  head := rfl
  linked := .singleton name
  distinct := .nil
  unseen := by simp
  again := ⟨name, rfl, .inr met⟩

/-- A path from the parent that heeds the name as well goes on from the name. -/
theorem IsRevisit.cons (h : c.IsRevisit (name :: seen) parent path) (up : c.Extends name parent)
    (new : name ∉ seen) : c.IsRevisit seen name (name :: path) := by
  have nonempty : path ≠ [] := by
    rintro rfl
    cases h.head
  have initial : (name :: path).dropLast = name :: path.dropLast :=
    List.dropLast_cons_of_ne_nil nonempty
  constructor
  · rfl
  · refine List.isChain_cons.2 ⟨fun n hn => ?_, h.linked⟩
    rw [h.head] at hn
    cases hn
    exact up
  · rw [initial]
    exact List.nodup_cons.2 ⟨fun hmem => h.unseen name hmem (by simp), h.distinct⟩
  · rw [initial]
    intro n hn
    rcases List.mem_cons.1 hn with rfl | hn
    · exact new
    · exact fun hmem => h.unseen n hn (by simp [hmem])
  · obtain ⟨last, hlast, met⟩ := h.again
    refine ⟨last, by simp [List.getLast?_cons, hlast], ?_⟩
    rw [initial, List.mem_cons]
    rcases met with met | met
    · exact .inl (.inr met)
    · rcases List.mem_cons.1 met with rfl | met
      · exact .inl (.inl rfl)
      · exact .inr met

theorem isRevisit_of_revisitFrom? (h : revisitFrom? c.types seen name = some path) :
    c.IsRevisit seen name path := by
  fun_induction revisitFrom? c.types seen name generalizing path with
  | case1 seen name met =>
    cases h
    exact isRevisit_singleton met
  | case2 | case3 => cases h
  | case4 seen name new d declared parent hp _ ih =>
    obtain ⟨rest, hrest, rfl⟩ := Option.map_eq_some_iff.1 h
    exact (ih hrest).cons ⟨d, declared, hp⟩ new

/-! ### When there is one -/

/-- The chain of parents from a name ends exactly if it comes to a name without a parent. -/
theorem exists_lineage_iff_ends : (∃ ds, Lineage c.types name ds) ↔
    ∃ n, ReflTransGen c.Extends name n ∧ ∀ parent, ¬c.Extends n parent := by
  constructor
  · rintro ⟨ds, hds⟩
    induction hds with
    | @undeclared name absent =>
      refine ⟨name, .refl, ?_⟩
      rintro parent ⟨d, hd, -⟩
      rw [type?, absent] at hd
      cases hd
    | @root name d declared root =>
      refine ⟨name, .refl, ?_⟩
      rintro parent ⟨e, he, hp⟩
      rw [type?, declared] at he
      cases he
      rw [root] at hp
      cases hp
    | step declared hp _ ih =>
      obtain ⟨n, hn, last⟩ := ih
      exact ⟨n, .head ⟨_, declared, hp⟩ hn, last⟩
  · rintro ⟨n, hn, last⟩
    induction hn using ReflTransGen.head_induction_on with
    | refl =>
      cases declared : c.type? n with
      | none => exact ⟨[], .undeclared declared⟩
      | some d =>
        cases hp : d.parent with
        | none => exact ⟨[d], .root declared hp⟩
        | some parent => exact absurd ⟨d, declared, hp⟩ (last parent)
    | head up _ ih =>
      obtain ⟨d, declared, hp⟩ := up
      obtain ⟨ds, hds⟩ := ih
      exact ⟨d :: ds, .step declared hp hds⟩

theorem cycle?_eq_none_iff_lineage (hkeyed : IsKeyed c.types) :
    c.cycle? name = none ↔ ∃ ds, Lineage c.types name ds :=
  revisitFrom?_eq_none_iff hkeyed

theorem isSome_cycle?_iff (hkeyed : IsKeyed c.types) : (c.cycle? name).isSome = true ↔
    ∀ n, ReflTransGen c.Extends name n → ∃ parent, c.Extends n parent := by
  rw [Option.isSome_iff_ne_none, Ne, cycle?_eq_none_iff_lineage hkeyed, exists_lineage_iff_ends]
  push Not
  exact .rfl

/-- The index of cyclic types tells of each name whether its chain of parents revisits a type. -/
theorem IsBuilt.isCyclic_eq_isSome_cycle? (h : c.IsBuilt) (name : String) :
    c.isCyclic name = (c.cycle? name).isSome := by
  rw [Bool.eq_iff_iff, h.isCyclic_iff, Option.isSome_iff_ne_none, Ne,
    cycle?_eq_none_iff_lineage h.isKeyed]
  refine and_iff_right_of_imp fun none => ?_
  by_contra absent
  have absent := OrderedMap.get?_of_not_contains (Bool.eq_false_iff.2 absent)
  exact none ⟨[], .undeclared absent⟩

/-! ### What comes of it -/

/-- Of reports on different names, each of which tells its name, there is one on a name if that is
among them and is reported on. -/
theorem filter_filterMap_eq_of_nodup {names : List String} {report : String → Option Problem}
    {about : Problem → Option String} (habout : ∀ n p, report n = some p → about p = some n)
    (distinct : names.Nodup) : (names.filterMap report).filter (about · = some name) =
      if name ∈ names then (report name).toList else [] := by
  induction names with
  | nil => rfl
  | cons n names ih =>
    obtain ⟨new, distinct⟩ := List.nodup_cons.1 distinct
    rw [List.filterMap_cons]
    by_cases same : n = name
    · subst same
      rw [if_neg new] at ih
      cases hreport : report n with
      | none => simpa [hreport] using ih distinct
      | some p => simpa [hreport, habout n p hreport] using ih distinct
    · cases hreport : report n with
      | none => simpa [Ne.symm same] using ih distinct
      | some p => simpa [habout n p hreport, same, Ne.symm same] using ih distinct

/-- Each type whose chain of parents revisits a type has one problem that says so, and others have
none. -/
theorem IsBuilt.filter_problems_cyclicType?_eq (h : c.IsBuilt) (checkNames : Bool) (name : String) :
    (c.problems checkNames).filter (·.kind.cyclicType? = some name) =
      ((c.cycle? name).map fun path => problemIn name (.cyclicInheritance name path)).toList := by
  obtain ⟨types, enums, hconsistent, hkeyed, rfl⟩ := h.exists_eq_ofMaps
  let c := Catalog.ofMaps types enums
  let report (n : String) : Option Problem :=
    (c.cycle? n).map fun path => problemIn n (.cyclicInheritance n path)
  have habout (n : String) (p : Problem) (hp : report n = some p) :
      p.kind.cyclicType? = some n := by
    obtain ⟨path, -, rfl⟩ := Option.map_eq_some_iff.1 hp
    rfl
  have all : (c.problems checkNames).filter (·.kind.cyclicType?.isSome) =
      types.order.filterMap report := by
    rw [h.filter_problems_cyclicType?, ← hkeyed.map_values hconsistent, List.filterMap_map]
    rfl
  have only : (c.problems checkNames).filter (·.kind.cyclicType? = some name) =
      (types.order.filterMap report).filter (·.kind.cyclicType? = some name) := by
    rw [← all, List.filter_filter]
    refine List.filter_congr fun p _ => ?_
    by_cases told : p.kind.cyclicType? = some name <;> simp [told]
  rw [only, filter_filterMap_eq_of_nodup habout hconsistent.nodup]
  split
  · rfl
  · rename_i absent
    -- a name that is not declared has a chain without a type
    rw [hconsistent.mem_iff, Bool.not_eq_true] at absent
    have lineage : Lineage types name [] := .undeclared (OrderedMap.get?_of_not_contains absent)
    rw [(cycle?_eq_none_iff_lineage h.isKeyed).2 ⟨[], lineage⟩]
    rfl

/-- A type whose chain of parents revisits a type is alone in its order of search. -/
theorem IsBuilt.lookupOrder_of_cycle? (h : c.IsBuilt) (hd : c.type? name = some d)
    (hpath : c.cycle? name = some path) : c.lookupOrder name = [d] := by
  apply lookupOrder_of_isCyclic h.isKeyed hd
  rw [h.isCyclic_eq_isSome_cycle?, hpath]
  rfl

/-- Looking for a cycle returns a path exactly from those declared names from which the parents lead
to no end. The path begins with the name, leads from parent to parent, comes to no name twice before
its end and ends with one that it came to. The index of cyclic types, the problems that validation
finds, the ancestors of a type and its members agree with that. -/
theorem cycle?_spec (h : c.IsBuilt) (name : String) :
    ((c.cycle? name).isSome = true ↔ (c.type? name).isSome = true ∧
      ∀ n, ReflTransGen c.Extends name n → ∃ parent, c.Extends n parent) ∧
    (∀ path, c.cycle? name = some path → path.head? = some name ∧ path.IsChain c.Extends ∧
      path.dropLast.Nodup ∧ ∃ last ∈ path.dropLast, path.getLast? = some last) ∧
    c.isCyclic name = (c.cycle? name).isSome ∧
    (∀ checkNames, (c.problems checkNames).filter (·.kind.cyclicType? = some name) =
      ((c.cycle? name).map fun path => problemIn name (.cyclicInheritance name path)).toList) ∧
    ∀ d path, c.type? name = some d → c.cycle? name = some path →
      c.ancestors name = .ok [] ∧ ∀ member, c.memberNamed name member =
        match d.member? member with
        | some m => .ok ⟨d, m⟩
        | none => .error ⟨.memberNotFound name member, none⟩ := by
  refine ⟨?_, fun path hpath => ?_, h.isCyclic_eq_isSome_cycle? name,
    fun checkNames => h.filter_problems_cyclicType?_eq checkNames name, fun d path hd hpath => ?_⟩
  · rw [isSome_cycle?_iff h.isKeyed]
    refine ⟨fun endless => ⟨?_, endless⟩, fun endless => endless.2⟩
    obtain ⟨parent, d, hd, -⟩ := endless name .refl
    rw [hd]
    rfl
  · obtain ⟨head, linked, distinct, -, last, hlast, met⟩ := isRevisit_of_revisitFrom? hpath
    exact ⟨head, linked, distinct, last, met.resolve_right (by simp), hlast⟩
  · have alone := h.lookupOrder_of_cycle? hd hpath
    constructor
    · rw [ancestors, typeNamed, hd]
      show Except.ok (((c.lookupOrder name).drop 1).map (·.name)) = _
      rw [alone]
      rfl
    · intro member
      rw [memberNamed, hd]
      dsimp only
      rw [alone, firstMember?, List.findSome?_singleton]
      cases d.member? member <;> rfl

/-- The chain of parents from a type outside a cycle runs into it. -/
theorem cycle?_spec_tail :
    let c := ofDeclarations [(TypeDeclaration.ofClass "A").withParent "B",
      (TypeDeclaration.ofClass "B").withParent "A", (TypeDeclaration.ofClass "C").withParent "A",
      (TypeDeclaration.ofClass "D").withParent "Missing"] []
    c.isCyclic "C" = true ∧ c.isCyclic "D" = false ∧
      (c.problems false).filter (·.kind.cyclicType? = some "C") =
        [problemIn "C" (.cyclicInheritance "C" ["C", "A", "B", "A"])] := by
  intro c
  have built : c.IsBuilt := .ofDeclarations _ _
  obtain ⟨-, -, hindex, hproblems, -⟩ := cycle?_spec built "C"
  obtain ⟨-, -, hindex', -, -⟩ := cycle?_spec built "D"
  have path : c.cycle? "C" = some ["C", "A", "B", "A"] := by decide +kernel
  have none : c.cycle? "D" = none := by decide +kernel
  refine ⟨by rw [hindex, path]; rfl, by rw [hindex', none]; rfl, ?_⟩
  rw [hproblems, path]
  rfl

end ApiCatalog.Catalog
