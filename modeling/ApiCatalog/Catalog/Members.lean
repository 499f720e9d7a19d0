import ApiCatalog.Catalog.Inheritance

/-!
# Members seen through inheritance

The members that a type has of its own and by inheritance, its ancestors, and the types that
its aliases stand for. Of members with the same name the first in the order of search counts.

Main definitions: `Catalog.memberNamed`, `Catalog.allMembers`, `Catalog.isSubtype`,
`Catalog.dealiased`.
-/

namespace ApiCatalog

/-- A member and the type that declares it. -/
structure FoundMember where
  owner : TypeDeclaration
  member : Member
  deriving DecidableEq

namespace Catalog

/-- The first of the types' members with a name. -/
def firstMember? (name : String) (order : List TypeDeclaration) : Option FoundMember :=
  order.findSome? fun owner => (owner.member? name).map (⟨owner, ·⟩)

/-- The member of a type, its own or inherited, or the problem that there is none. -/
def memberNamed (c : Catalog) (type member : String) : Except Problem FoundMember :=
  match c.type? type with
  | none => .error ⟨.typeNotFound type, none⟩
  | some _ =>
    match firstMember? member (c.lookupOrder type) with
    | some found => .ok found
    | none => .error ⟨.memberNotFound type member, none⟩

/-- The member that a type inherits, whatever members it has of its own. -/
def inheritedMember? (c : Catalog) (type member : String) : Option FoundMember :=
  firstMember? member ((c.lookupOrder type).drop 1)

/-- The names of the types that a type inherits from, the nearest first. -/
def ancestors (c : Catalog) (type : String) : Except Problem (List String) := do
  let _ ← c.typeNamed type
  .ok (((c.lookupOrder type).drop 1).map (·.name))

/-- Keeps the first member of each name that is not among those seen. -/
def firstOfEachName (seen : List String) : List FoundMember → List FoundMember
  | [] => []
  | found :: rest =>
    if seen.contains found.member.name then firstOfEachName seen rest
    else found :: firstOfEachName (found.member.name :: seen) rest

/-- All members that a type has, its own first; of those with the same name only the most
specific. -/
def allMembers (c : Catalog) (type : String) : Except Problem (List FoundMember) := do
  let _ ← c.typeNamed type
  .ok (firstOfEachName []
    ((c.lookupOrder type).flatMap fun owner => owner.members.map (⟨owner, ·⟩)))

/-- Whether a type is another one or inherits from it. -/
def isSubtype (c : Catalog) (sub sup : String) : Bool :=
  sub == sup || (c.lookupOrder sub).any (·.name == sup)

/-! ### Aliases -/

/-- The type that a name stands for. -/
def alias? (c : Catalog) (name : String) : Option TypeExpr := (c.type? name).bind (·.aliased)

theorem mem_names_of_alias? {c : Catalog} {name : String} {t : TypeExpr}
    (h : c.alias? name = some t) : name ∈ c.types.entries.names := by
  refine NameMap.contains_iff_mem_names.1 ?_
  simp only [alias?, Option.bind_eq_some_iff] at h
  obtain ⟨d, declared, _⟩ := h
  simp only [type?, OrderedMap.get?] at declared
  simp [NameMap.contains, declared]

/-- Follows aliases from a type, but none of a name seen before. Qualifiers around the name of
an alias are dropped with it. -/
def followAliases (c : Catalog) (seen : List String) (t : TypeExpr) : TypeExpr :=
  match t.bare with
  | .named name =>
    match aliased : c.alias? name with
    | none => t
    | some target =>
      if met : name ∈ seen then t
      else
        have : unmet c.types.entries.names (name :: seen) < unmet c.types.entries.names seen :=
          unmet_lt (mem_names_of_alias? aliased) met (by simp) (by simp +contextual)
        followAliases c (name :: seen) target
  | _ => t
termination_by unmet c.types.entries.names seen

/-- The type that a type stands for once aliases are followed. A loop of aliases is left at
the first name met again. -/
def dealiased (c : Catalog) (t : TypeExpr) : TypeExpr := c.followAliases [] t

end Catalog

end ApiCatalog
