import ApiCatalog.TypeExpr.Basic
import ApiCatalog.Number.Shortest
import ApiCatalog.Text.Quoted
import ApiCatalog.Text.Position

/-!
# Declarations

A type declaration names a type and lists its members; an enumeration maps symbols to literal
values; an augmentation adds members to a type that is declared elsewhere. Declarations are
plain data, and nothing here looks up the names in them.
-/

namespace ApiCatalog

/-! ### References and deprecation -/

/-- A reference to a type or, behind a slash, to one of its members. -/
structure Reference where
  type : String
  member : Option String := none
  deriving DecidableEq, Repr

namespace Reference

/-- The reference that characters denote. Neither part may be empty, and the member has no
slash in it. -/
def ofChars? (cs : List Char) : Option Reference :=
  match cs.dropWhile (· ≠ '/') with
  | [] => if cs = [] then none else some ⟨String.ofList cs, none⟩
  | _ :: member =>
    let type := cs.takeWhile (· ≠ '/')
    if type = [] || member = [] || member.contains '/' then none
    else some ⟨String.ofList type, some (String.ofList member)⟩

/-- The reference that a text denotes. -/
def ofText? (s : String) : Option Reference := ofChars? s.toList

/-- The text of a reference. -/
def text (r : Reference) : String :=
  match r.member with
  | some member => r.type ++ "/" ++ member
  | none => r.type

end Reference

/-- The mark of what should not be used any more, with what replaces it and a note. -/
structure Deprecation where
  replacement : Option Reference := none
  note : Option String := none
  deriving DecidableEq, Repr

/-! ### Members -/

/-- A named parameter of a method or constructor. -/
structure Parameter where
  name : String
  type : TypeExpr
  optional : Bool := false
  deriving DecidableEq

/-- What a member is. -/
inductive MemberKind
  /-- A property; a constant cannot be assigned either. -/
  | property (type : TypeExpr) (isReadonly isConstant : Bool)
  /-- A method, with the properties that it changes. -/
  | method (params : List Parameter) (returns : TypeExpr) (mutates : List String)
  deriving DecidableEq

/-- A property or method of a type. -/
structure Member where
  name : String
  kind : MemberKind
  deprecated : Option Deprecation := none
  see : List String := []
  deriving DecidableEq

namespace Member

/-- The property of a name and type that can be assigned. -/
def property (name : String) (type : TypeExpr) : Member :=
  ⟨name, .property type false false, none, []⟩

/-- The property of a name and type that cannot be assigned. -/
def readonlyProperty (name : String) (type : TypeExpr) : Member :=
  ⟨name, .property type true false, none, []⟩

/-- The method of a name, parameters and result. -/
def method (name : String) (params : List Parameter) (returns : TypeExpr) : Member :=
  ⟨name, .method params returns [], none, []⟩

/-- Whether the member is a method. -/
def isMethod (m : Member) : Bool :=
  match m.kind with
  | .method .. => true
  | .property .. => false

/-- Whether the member is a property that cannot be assigned. -/
def isReadonly (m : Member) : Bool :=
  match m.kind with
  | .property _ isReadonly isConstant => isReadonly || isConstant
  | .method .. => false

/-- The result of a method. -/
def result? (m : Member) : Option TypeExpr :=
  match m.kind with
  | .method _ returns _ => some returns
  | .property .. => none

/-- The parameters of a method. -/
def params (m : Member) : List Parameter :=
  match m.kind with
  | .method params .. => params
  | .property .. => []

/-- The type of the member's value; the value of a method is a function. -/
def typeAsValue (m : Member) : TypeExpr :=
  match m.kind with
  | .property type .. => type
  | .method params returns _ => .function (params.map fun p => (p.type, p.optional)) returns

end Member

/-! ### Types -/

/-- The kinds of type declarations. -/
inductive TypeKind
  | classLike
  | interface
  | record
  | typedef
  deriving DecidableEq, Repr

namespace TypeKind

/-- The word for a kind of type declarations. -/
def name : TypeKind → String
  | .classLike => "class"
  | .interface => "interface"
  | .record => "record"
  | .typedef => "typedef"

/-- The symbol that a declaration of the kind begins with. -/
def head (k : TypeKind) : String := k.name ++ ":"

end TypeKind

/-- The declaration of a type. -/
structure TypeDeclaration where
  name : String
  kind : TypeKind
  /-- The parent in the chain of inheritance. -/
  parent : Option String := none
  /-- The interfaces that the type has without inheriting from them. -/
  capabilities : List String := []
  /-- The names of the type parameters. -/
  template : List String := []
  /-- The parameters of the constructor; of a class only. -/
  constructor : Option (List Parameter) := none
  /-- The type that the name stands for; of a typedef only. -/
  aliased : Option TypeExpr := none
  members : List Member := []
  deprecated : Option Deprecation := none
  see : List String := []
  deriving DecidableEq

namespace TypeDeclaration

/-- The class of a name with a constructor that takes nothing. -/
def ofClass (name : String) : TypeDeclaration :=
  { name, kind := .classLike, constructor := some [] }

/-- The interface of a name. -/
def ofInterface (name : String) : TypeDeclaration := { name, kind := .interface }

/-- The name that stands for a type. -/
def ofTypedef (name : String) (type : TypeExpr) : TypeDeclaration :=
  { name, kind := .typedef, aliased := some type }

/-- The declaration with a parent. -/
def withParent (d : TypeDeclaration) (parent : String) : TypeDeclaration :=
  { d with parent := some parent }

/-- The declaration with another capability. -/
def withCapability (d : TypeDeclaration) (capability : String) : TypeDeclaration :=
  { d with capabilities := d.capabilities ++ [capability] }

/-- The declaration with more members. -/
def addMembers (d : TypeDeclaration) (members : List Member) : TypeDeclaration :=
  { d with members := d.members ++ members }

/-- The first of the type's own members with a name. -/
def member? (d : TypeDeclaration) (name : String) : Option Member :=
  d.members.find? (·.name == name)

/-- Whether a name is a parameter of the type. -/
def hasTypeParameter (d : TypeDeclaration) (name : String) : Bool := d.template.contains name

end TypeDeclaration

/-! ### Enumerations -/

/-- The kinds of literals in an enumeration. -/
inductive LiteralKind
  | string
  | number
  deriving DecidableEq, Repr

/-- The word for a kind of literals. -/
def LiteralKind.name : LiteralKind → String
  | .string => "string"
  | .number => "number"

/-- A literal value. Floating-point numbers are equal if their bits are. -/
inductive Literal
  | string (text : String)
  | int (value : Int64)
  | float (value : Binary64)
  deriving DecidableEq

namespace Literal

/-- The kind of a literal. -/
def kind : Literal → LiteralKind
  | .string _ => .string
  | .int _ => .number
  | .float _ => .number

/-- The text of a string literal. -/
def string? : Literal → Option String
  | .string s => some s
  | _ => none

/-- The text of a literal for a reader. -/
def text : Literal → String
  | .string s => Quoted.text s
  | .int n => String.ofList (Integer.text n)
  | .float x => String.ofList x.text

end Literal

/-- A symbol of an enumeration and its value. -/
structure EnumSymbol where
  name : String
  value : Literal
  deriving DecidableEq

/-- The declaration of an enumeration. -/
structure Enumeration where
  name : String
  kind : LiteralKind
  symbols : List EnumSymbol := []
  deprecated : Option Deprecation := none
  see : List String := []
  deriving DecidableEq

/-- The literal of the first symbol with a name. -/
def Enumeration.literal? (d : Enumeration) (symbol : String) : Option Literal :=
  (d.symbols.find? (·.name == symbol)).map (·.value)

/-! ### What a text can declare -/

/-- Members for a type that is declared elsewhere. -/
structure Augmentation where
  target : String
  members : List Member := []
  deriving DecidableEq

/-- What a form declares. -/
inductive Declaration
  | type (decl : TypeDeclaration)
  | enum (decl : Enumeration)
  | augment (augmentation : Augmentation)
  deriving DecidableEq

/-- The name that is declared or, of an augmentation, the target. -/
def Declaration.name : Declaration → String
  | .type decl => decl.name
  | .enum decl => decl.name
  | .augment augmentation => augmentation.target

/-- A declaration and the span of text it was read from. -/
structure Declared where
  declaration : Declaration
  span : Span
  deriving DecidableEq

end ApiCatalog
