import ApiCatalog.Declaration.Basic
import ApiCatalog.TypeExpr.ToForm
import ApiCatalog.Form.Layout

/-!
# Forms of declarations

The form in which a declaration is written. What has its usual value is left out: an empty
list, a flag that is not set, a constructor that takes nothing, a function that returns
nothing.

Main definitions: `Declaration.toForm`, `TypeDeclaration.toForm`, `Enumeration.toForm`,
`Member.toForm`.
-/

namespace ApiCatalog

/-! ### Clauses -/

/-- The items of a clause. -/
def clause (key : String) (value : Form) : List Form := [.keyword key, value]

/-- The items of a clause that is left out unless the condition holds. -/
def clauseIf (condition : Bool) (key : String) (value : Form) : List Form :=
  if condition then clause key value else []

/-- The vector of the symbols of names. -/
def symbolVector (names : List String) : Form := .vector (names.map .symbol)

/-- The clause of a list of names, unless it is empty. -/
def namesClause (key : String) (names : List String) : List Form :=
  clauseIf (!names.isEmpty) key (symbolVector names)

/-! ### Annotations -/

/-- The form of a reference. -/
def Reference.toForm (r : Reference) : Form := .symbol r.text

/-- The form of a deprecation: a truth value if it says nothing more. -/
def Deprecation.toForm (d : Deprecation) : Form :=
  match d.replacement, d.note with
  | none, none => .ofAtom (.bool true)
  | some replacement, none => replacement.toForm
  | none, some note => .string note
  | some replacement, some note =>
    .map [(.keyword "replacement", replacement.toForm), (.keyword "note", .string note)]

/-- The clauses of a deprecation and of links. -/
def annotations (deprecated : Option Deprecation) (see : List String) : List Form :=
  (match deprecated with
    | none => []
    | some d => clause "deprecated" d.toForm) ++
  clauseIf (!see.isEmpty) "see" (.vector (see.map .string))

/-! ### Members -/

/-- The form of a parameter. -/
def Parameter.toForm (p : Parameter) : Form :=
  .list (.symbol p.name :: p.type.toForm :: if p.optional then [.keyword "optional"] else [])

/-- The vector of parameters. -/
def Parameter.vector (params : List Parameter) : Form := .vector (params.map Parameter.toForm)

/-- The form of a member. -/
def Member.toForm (m : Member) : Form :=
  .list <|
    (match m.kind with
    | .property type isReadonly isConstant =>
      [.symbol "property", .symbol m.name, type.toForm] ++
        (if isReadonly then [.keyword "readonly"] else []) ++
        (if isConstant then [.keyword "const"] else [])
    | .method params returns mutates =>
      [.symbol "method", .symbol m.name, Parameter.vector params] ++
        (if returns.isVoid then [] else [returns.toForm]) ++
        namesClause "mutates" mutates) ++
    annotations m.deprecated m.see

/-- The vector of members. -/
def Member.vector (members : List Member) : Form := .vector (members.map Member.toForm)

/-! ### Declarations -/

/-- The clause of the parameters of a class's constructor, unless it takes nothing. -/
def TypeDeclaration.constructorClause (d : TypeDeclaration) : List Form :=
  match d.kind, d.constructor with
  | .classLike, some params => clauseIf (!params.isEmpty) "params" (Parameter.vector params)
  | _, _ => []

/-- The form of the declaration of a type. -/
def TypeDeclaration.toForm (d : TypeDeclaration) : Form :=
  .list <|
    [.symbol d.kind.head, .symbol d.name] ++
    (match d.aliased with
      | none => []
      | some type => [type.toForm]) ++
    (match d.parent with
      | none => []
      | some parent => clause "extends" (.symbol parent)) ++
    namesClause "implements" d.capabilities ++
    namesClause "template" d.template ++
    d.constructorClause ++
    annotations d.deprecated d.see ++
    clauseIf (!d.members.isEmpty) "members" (Member.vector d.members)

/-- The form of a literal value. -/
def Literal.toForm : Literal → Form
  | .string s => .string s
  | .int n => .ofAtom (.int n)
  | .float x => .ofAtom (.float x)

/-- The entry of a symbol. -/
def EnumSymbol.toEntry (v : EnumSymbol) : Form × Form := (.keyword v.name, v.value.toForm)

/-- The form of the declaration of an enumeration. -/
def Enumeration.toForm (d : Enumeration) : Form :=
  .list <|
    [.symbol "enum:", .symbol d.name] ++
    clause "of" (.symbol d.kind.name) ++
    annotations d.deprecated d.see ++
    clause "values" (.map (d.symbols.map EnumSymbol.toEntry))

/-- The form of an augmentation. -/
def Augmentation.toForm (a : Augmentation) : Form :=
  .list ([.symbol "augment:", .symbol a.target] ++ clause "members" (Member.vector a.members))

/-- The form of a declaration. -/
def Declaration.toForm : Declaration → Form
  | .type d => d.toForm
  | .enum d => d.toForm
  | .augment a => a.toForm

/-- The text of declarations. -/
def Declaration.source (declarations : List Declaration) : String :=
  Form.document {} (declarations.map toForm)

end ApiCatalog
