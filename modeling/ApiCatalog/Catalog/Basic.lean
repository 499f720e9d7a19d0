import ApiCatalog.OrderedMap
import ApiCatalog.Declaration.ToForm
import ApiCatalog.Problem

/-!
# Catalogs

A catalog holds the declared types and enumerations under their names, in the order in which
they were written, and two facts derived from them: the types whose chain of parents comes
back to a type met before, and for each member that shadows an inherited one the type it is
inherited from.

Main definition: `Catalog`.
-/

namespace ApiCatalog

/-- Declared types and enumerations with the facts derived from them. -/
structure Catalog where
  types : OrderedMap TypeDeclaration
  enums : OrderedMap Enumeration
  /-- The types whose chain of parents revisits a type. -/
  cyclic : NameSet
  /-- For each type and member, the type whose member it shadows. -/
  overrides : NameMap (NameMap String)
  deriving DecidableEq

namespace Catalog

/-- The catalog that declares nothing. -/
def empty : Catalog := ⟨.empty, .empty, .empty, .empty⟩

instance : EmptyCollection Catalog := ⟨empty⟩
instance : Inhabited Catalog := ⟨empty⟩

/-! ### Declarations -/

/-- The declaration of a type. -/
def type? (c : Catalog) (name : String) : Option TypeDeclaration := c.types.get? name

/-- The declaration of an enumeration. -/
def enum? (c : Catalog) (name : String) : Option Enumeration := c.enums.get? name

/-- The declaration of a type, or the problem that there is none. -/
def typeNamed (c : Catalog) (name : String) : Except Problem TypeDeclaration :=
  match c.type? name with
  | some d => .ok d
  | none => .error ⟨.typeNotFound name, none⟩

/-- The declaration of an enumeration, or the problem that there is none. -/
def enumNamed (c : Catalog) (name : String) : Except Problem Enumeration :=
  match c.enum? name with
  | some d => .ok d
  | none => .error ⟨.enumNotFound name, none⟩

/-- The value of a symbol of an enumeration, or the problem that there is none. -/
def enumValue (c : Catalog) (enum symbol : String) : Except Problem Literal := do
  match (← c.enumNamed enum).literal? symbol with
  | some value => .ok value
  | none => .error ⟨.enumValueNotFound enum symbol, none⟩

/-- Whether a type or enumeration has the name. -/
def contains (c : Catalog) (name : String) : Bool :=
  c.types.contains name || c.enums.contains name

/-- Whether the catalog declares nothing. -/
def isEmpty (c : Catalog) : Bool := c.types.isEmpty && c.enums.isEmpty

/-! ### Derived facts -/

/-- Whether the type's chain of parents revisits a type. Such a type has its own members
only. -/
def isCyclic (c : Catalog) (name : String) : Bool := c.cyclic.contains name

/-- The types whose chain of parents revisits a type, in order. -/
def cyclicTypes (c : Catalog) : List String := c.types.keys.filter c.isCyclic

/-- The type whose member the type's own member shadows. -/
def shadowedOwner? (c : Catalog) (owner member : String) : Option String :=
  (c.overrides.get? owner).bind (·.get? member)

/-- A member that shadows an inherited one. -/
structure Override where
  owner : String
  member : String
  ancestor : String
  deriving DecidableEq, Repr

/-- The members that shadow inherited ones, in order. -/
def overrideList (c : Catalog) : List Override :=
  c.types.values.flatMap fun d =>
    d.members.filterMap fun m => (c.shadowedOwner? d.name m.name).map (⟨d.name, m.name, ·⟩)

/-! ### Source -/

/-- The declarations as text, types before enumerations. -/
def source (c : Catalog) : String :=
  Form.document {}
    (c.types.values.map TypeDeclaration.toForm ++ c.enums.values.map Enumeration.toForm)

end Catalog

end ApiCatalog
