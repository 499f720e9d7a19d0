import Mathlib.Logic.Relation
import ApiCatalog.Proofs.Cycles

/-!
# Changes that a type does not see

What is asked of a type is answered from the types that it leads to, by parents and capabilities. A
chain of parents that is cyclic stops every search, and whether it is depends on types that no search
comes to; so the types a type leads to are those behind cyclic types too. With any other name a type
can be added or replaced unseen, and an enumeration with any name.

Two catalogs that have the same types under the names of a set, and nothing that leads out of it,
are compared step by step: a walk along the parents, a walk of a search, and the whole search.

Main definitions: `Catalog.LeadsTo`, `Catalog.AgreeOn`, `Catalog.AnswersAlike`.
Main statement: `Catalog.insert_unseen`.
-/

namespace ApiCatalog.Catalog

open Relation

variable {c c' : Catalog} {S : Set String} {name : String} {d : TypeDeclaration}
  {order : List TypeDeclaration} {seen pending : List String}

/-- Whether a declared type has the name as its parent or among its capabilities. -/
def LeadsTo (c : Catalog) (name other : String) : Prop :=
  ∃ d, c.type? name = some d ∧ (d.parent = some other ∨ other ∈ d.capabilities)

/-- Whether two catalogs have the same types under the names of a set, and none of these leads out
of the set. -/
structure AgreeOn (S : Set String) (c c' : Catalog) : Prop where
  closed : ∀ n ∈ S, ∀ m, c.LeadsTo n m → m ∈ S
  type : ∀ n ∈ S, c'.type? n = c.type? n

/-- Whether two catalogs answer alike whatever is asked of a type. -/
structure AnswersAlike (c c' : Catalog) (type : String) : Prop where
  lookupOrder : c.lookupOrder type = c'.lookupOrder type
  memberNamed : ∀ member, c.memberNamed type member = c'.memberNamed type member
  inheritedMember? : ∀ member, c.inheritedMember? type member = c'.inheritedMember? type member
  allMembers : c.allMembers type = c'.allMembers type
  ancestors : c.ancestors type = c'.ancestors type
  isSubtype : ∀ sup, c.isSubtype type sup = c'.isSubtype type sup
  isCyclic : c.isCyclic type = c'.isCyclic type
  cycle? : c.cycle? type = c'.cycle? type
  shadowedOwner? : ∀ member, c.shadowedOwner? type member = c'.shadowedOwner? type member

/-! ### Along the parents -/

/-- One step along the parents. -/
theorem revisitFrom?_eq (types : OrderedMap TypeDeclaration) (seen : List String)
    (name : String) :
    revisitFrom? types seen name =
      if name ∈ seen then some [name]
      else ((types.get? name).bind (·.parent)).bind fun parent =>
        (revisitFrom? types (name :: seen) parent).map (name :: ·) := by
  rw [revisitFrom?]
  split
  · rfl
  · split
    · rename_i absent
      rw [absent]
      rfl
    · rename_i d declared
      have parent : (types.get? name).bind (·.parent) = d.parent := by rw [declared]; rfl
      rw [parent]
      split <;> rename_i hp <;> rw [hp] <;> rfl

namespace AgreeOn

theorem parent_mem (h : AgreeOn S c c') (hname : name ∈ S) (hd : c.type? name = some d)
    {parent : String} (hp : d.parent = some parent) : parent ∈ S :=
  h.closed name hname parent ⟨d, hd, .inl hp⟩

theorem revisitFrom? (h : AgreeOn S c c') (hname : name ∈ S) :
    revisitFrom? c'.types seen name = revisitFrom? c.types seen name := by
  fun_induction Catalog.revisitFrom? c.types seen name with
  | case1 seen name met => rw [revisitFrom?_eq, if_pos met]
  | case2 seen name new absent =>
    have absent' : c'.types.get? name = none := (h.type name hname).trans absent
    rw [revisitFrom?_eq, if_neg new, absent']
    rfl
  | case3 seen name new d declared root =>
    have declared' : c'.types.get? name = some d := (h.type name hname).trans declared
    rw [revisitFrom?_eq, if_neg new, declared', Option.bind_some, root]
    rfl
  | case4 seen name new d declared parent hp _ ih =>
    have declared' : c'.types.get? name = some d := (h.type name hname).trans declared
    rw [revisitFrom?_eq, if_neg new, declared', Option.bind_some, hp, Option.bind_some,
      ih (h.parent_mem hname declared hp)]

theorem isCyclic (h : AgreeOn S c c') (hc : c.IsBuilt) (hc' : c'.IsBuilt) (hname : name ∈ S) :
    c'.isCyclic name = c.isCyclic name := by
  rw [hc.isCyclic_eq_isSome_cycle?, hc'.isCyclic_eq_isSome_cycle?, cycle?, cycle?,
    h.revisitFrom? hname]

/-! ### Along a search -/

theorem isClosed (h : AgreeOn S c c') : c.IsClosed S :=
  fun n hn _ d hd m hm _ => h.closed n hn m ⟨d, hd, hm⟩

section Built

variable (h : AgreeOn S c c') (hc : c.IsBuilt) (hc' : c'.IsBuilt)
include h hc hc'

/-- A walk passes the same types. -/
theorem chain (hname : name ∈ S) : c'.chain seen name = c.chain seen name := by
  fun_induction Catalog.chain c seen name with
  | case1 seen name absent => exact chain_of_undeclared ((h.type name hname).trans absent)
  | case2 seen name d declared met =>
    exact chain_of_mem ((h.type name hname).trans declared) met
  | case3 seen name d declared new cyclic =>
    have same := hc.isKeyed _ _ declared
    rw [chain_of_type? ((h.type name hname).trans declared) new,
      h.isCyclic hc hc' (same ▸ hname), if_pos cyclic]
  | case4 seen name d declared new acyclic root =>
    rw [chain_of_type? ((h.type name hname).trans declared) new, root]
    exact congrArg (d :: ·) (ite_self _)
  | case5 seen name d declared new acyclic parent hp _ ih =>
    have same := hc.isKeyed _ _ declared
    rw [chain_of_type? ((h.type name hname).trans declared) new,
      h.isCyclic hc hc' (same ▸ hname), if_neg acyclic, hp]
    exact congrArg (d :: ·) (ih (h.parent_mem hname declared hp))

/-- A search that is still to go through names of the set finds the same types. -/
theorem searchFrom (hpending : ∀ n ∈ pending, n ∈ S) :
    c'.searchFrom order pending = c.searchFrom order pending := by
  fun_induction Catalog.searchFrom c order pending with
  | case1 order => rw [Catalog.searchFrom]
  | case2 order name rest found ih =>
    rw [List.forall_mem_cons] at hpending
    rw [searchFrom_cons, h.chain hc hc' hpending.1, found, List.append_nil]
    exact ih hpending.2
  | case3 order name rest d ds found _ ih =>
    rw [List.forall_mem_cons] at hpending
    have inside : ∀ e ∈ d :: ds, e.name ∈ S := fun e he =>
      mem_of_mem_chain hc.isKeyed h.isClosed (fun _ => hpending.1) (found ▸ he)
    have capabilities : (d :: ds).flatMap c'.searchedCapabilities =
        (d :: ds).flatMap c.searchedCapabilities :=
      List.flatMap_congr fun e he => by
        rw [searchedCapabilities, searchedCapabilities, h.isCyclic hc hc' (inside e he)]
    rw [searchFrom_cons, h.chain hc hc' hpending.1, found, capabilities]
    refine ih fun n hn => ?_
    rcases List.mem_append.1 hn with hn | hn
    · -- a capability of a type in the set
      obtain ⟨e, he, hn⟩ := List.mem_flatMap.1 hn
      rw [searchedCapabilities] at hn
      split at hn
      · cases hn
      · have declared := type?_of_mem_chain hc.isKeyed (found ▸ he)
        exact h.closed e.name (inside e he) n ⟨e, declared, .inr hn⟩
    · exact hpending.2 n hn

theorem lookupOrder (hname : name ∈ S) : c'.lookupOrder name = c.lookupOrder name :=
  h.searchFrom hc hc' (by simpa using hname)

theorem inheritedMember? (hname : name ∈ S) (member : String) :
    c'.inheritedMember? name member = c.inheritedMember? name member := by
  rw [Catalog.inheritedMember?, Catalog.inheritedMember?, h.lookupOrder hc hc' hname]

theorem shadowedOwner? (hname : name ∈ S) (member : String) :
    c'.shadowedOwner? name member = c.shadowedOwner? name member := by
  rw [hc.shadowedOwner?_eq_bind, hc'.shadowedOwner?_eq_bind, h.type name hname,
    h.inheritedMember? hc hc' hname]

/-- Catalogs that agree on a set answer alike on the types in it. -/
theorem answersAlike (hname : name ∈ S) : c'.AnswersAlike c name where
  lookupOrder := h.lookupOrder hc hc' hname
  memberNamed member := by
    rw [Catalog.memberNamed, Catalog.memberNamed, h.type name hname, h.lookupOrder hc hc' hname]
  inheritedMember? := h.inheritedMember? hc hc' hname
  allMembers := by
    rw [Catalog.allMembers, Catalog.allMembers, typeNamed, typeNamed, h.type name hname,
      h.lookupOrder hc hc' hname]
  ancestors := by
    rw [Catalog.ancestors, Catalog.ancestors, typeNamed, typeNamed, h.type name hname,
      h.lookupOrder hc hc' hname]
  isSubtype sup := by rw [Catalog.isSubtype, Catalog.isSubtype, h.lookupOrder hc hc' hname]
  isCyclic := h.isCyclic hc hc' hname
  cycle? := h.revisitFrom? hname
  shadowedOwner? := h.shadowedOwner? hc hc' hname

end Built

end AgreeOn

/-! ### Changes -/

/-- A type that is added or replaced leaves what does not lead to its name as it was. -/
theorem agreeOn_insertType (c : Catalog) (d : TypeDeclaration) :
    AgreeOn {n | ¬ReflTransGen c.LeadsTo n d.name} c (c.insertType d) where
  closed _ hn _ hm := fun later => hn (.head hm later)
  type n hn := by
    refine (OrderedMap.get?_insert _ _ _ _).trans (if_neg ?_)
    rintro rfl
    exact hn .refl

theorem agreeOn_insertEnum (c : Catalog) (e : Enumeration) :
    AgreeOn Set.univ c (c.insertEnum e) where
  closed _ _ _ _ := trivial
  type _ _ := rfl

/-- Whatever is asked of a type has the same answer after a type is added or replaced to whose name
it does not lead, by parents and capabilities and through cyclic types too, and after any
enumeration is. -/
theorem insert_unseen (h : c.IsBuilt) :
    (∀ (d : TypeDeclaration) type, ¬ReflTransGen c.LeadsTo type d.name →
      (c.insertType d).AnswersAlike c type) ∧
    ∀ (e : Enumeration) type, (c.insertEnum e).AnswersAlike c type :=
  ⟨fun d _ unseen => (agreeOn_insertType c d).answersAlike h (h.insertType d) unseen,
    fun e _ => (agreeOn_insertEnum c e).answersAlike h (h.insertEnum e) trivial⟩

/-- A class that is replaced opens a cycle, unseen from a class beside it. -/
theorem insert_unseen_cycle :
    let c := ofDeclarations
      [((TypeDeclaration.ofClass "Leaf").withParent "Root").withCapability "Cap",
        (TypeDeclaration.ofClass "Root").withParent "Missing", TypeDeclaration.ofInterface "Cap",
        (TypeDeclaration.ofClass "X").withParent "Y",
        (TypeDeclaration.ofClass "Y").withParent "X"] []
    let y := TypeDeclaration.ofClass "Y"
    ¬ReflTransGen c.LeadsTo "Leaf" y.name ∧ (c.insertType y).AnswersAlike c "Leaf" ∧
      c.isCyclic "X" = true ∧ (c.insertType y).isCyclic "X" = false := by
  intro c y
  have closed : ∀ n ∈ ["Leaf", "Root", "Cap", "Missing"],
      ((c.type? n).elim [] fun d => d.parent.toList ++ d.capabilities) ⊆
        ["Leaf", "Root", "Cap", "Missing"] := by decide +kernel
  have inside (n : String) (h : ReflTransGen c.LeadsTo "Leaf" n) :
      n ∈ ["Leaf", "Root", "Cap", "Missing"] := by
    induction h with
    | refl => decide
    | tail _ step ih =>
      obtain ⟨d, hd, hm⟩ := step
      have led := closed _ ih
      rw [hd] at led
      exact led (by simpa [Option.mem_toList] using hm)
  have unseen : ¬ReflTransGen c.LeadsTo "Leaf" y.name := fun h =>
    absurd (inside _ h) (by decide)
  exact ⟨unseen, (insert_unseen (.ofDeclarations _ _)).1 y "Leaf" unseen, by decide +kernel,
    by decide +kernel⟩

end ApiCatalog.Catalog
