import ApiCatalog.TypeExpr.Basic
import ApiCatalog.Form.Basic

/-!
# Forms of type expressions

The form in which a type expression is written. A qualifier joins the symbol that it stands
before and is a constructor of its own before a list or map; a function that returns nothing
is written without its result.

Main definition: `TypeExpr.toForm`.
-/

namespace ApiCatalog.TypeExpr

/-- The form of a qualified type, given the form of the type without the qualifier. -/
def qualifiedForm (qualifier : String) (inner : Form) : Form :=
  match inner.symbol? with
  | some name => .symbol (qualifier ++ name)
  | none => .list [.symbol qualifier, inner]

/-- The form of a parameter, given the form of its type. -/
def paramForm (optional : Bool) (t : Form) : Form :=
  if optional then .list [.symbol "opt", t] else t

mutual

/-- The form of a type expression. -/
def toForm : TypeExpr → Form
  | .primitive kind => .symbol kind.name
  | .any => .symbol "*"
  | .unknown => .symbol "?"
  | .named name => .symbol name
  | .nullable inner => qualifiedForm "?" inner.toForm
  | .nonNull inner => qualifiedForm "!" inner.toForm
  | .array element => .list [.symbol "array", element.toForm]
  | .buffer kind => .list [.symbol "buffer", .symbol kind.keyword]
  | .union alternatives => .list (.symbol "union" :: toForms alternatives)
  | .promise payload => .list [.symbol "promise", payload.toForm]
  | .function params returns =>
    .list (.symbol "function" :: .vector (toFormsOfParams params) ::
      if returns.isVoid then [] else [returns.toForm])
  | .record fields => .map (toFormsOfFields fields)

/-- The forms of type expressions. -/
def toForms : List TypeExpr → List Form
  | [] => []
  | t :: ts => t.toForm :: toForms ts

/-- The forms of parameters. -/
def toFormsOfParams : List (TypeExpr × Bool) → List Form
  | [] => []
  | (t, optional) :: ts => paramForm optional t.toForm :: toFormsOfParams ts

/-- The forms of fields, each with its keyword. -/
def toFormsOfFields : List (String × TypeExpr) → List (Form × Form)
  | [] => []
  | (name, t) :: ts => (.keyword name, t.toForm) :: toFormsOfFields ts

end

end ApiCatalog.TypeExpr
