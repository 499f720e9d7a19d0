import ApiCatalog.Catalog.Members

/-!
# Assignability

A type is assignable to another if each of its values can certainly be used where one of the
other type is expected. What cannot be decided, such as a type parameter or a name that is
not declared, is assignable only to itself.

Main definitions: `Catalog.isAssignable`, `Catalog.overrideFault?`.
-/

namespace ApiCatalog.Catalog

/-- Whether every value is one of the type. -/
def acceptsAll (t : TypeExpr) : Bool :=
  match t.bare with
  | .any => true
  | .unknown => true
  | _ => false

/-- Whether nothing is known of the type's values. -/
def isUnknown (t : TypeExpr) : Bool :=
  match t.bare with
  | .unknown => true
  | _ => false

/-- Whether a function with the parameters `source` can be called like one with the parameters
`target`: each argument that a call passes is accepted, and one that no call passes may be
left out. -/
def acceptsCalls (accepts : TypeExpr → TypeExpr → Bool) :
    List (TypeExpr × Bool) → List (TypeExpr × Bool) → Bool
  | [], _ => true
  | (_, optional) :: source, [] => optional && acceptsCalls accepts source []
  | (needed, _) :: source, (passed, _) :: target =>
    accepts passed needed && acceptsCalls accepts source target

/-- Assignability with at most `room` more levels of nesting. -/
def isAssignableWithin (c : Catalog) (room : Nat) (source target : TypeExpr) : Bool :=
  source == target || acceptsAll target ||
    match room with
    | 0 => false
    | room + 1 =>
      let source := c.dealiased source
      let target := c.dealiased target
      if isUnknown source then true
      else if source.isNullable && !target.isNullable then false
      else
        match source.bare, target.bare with
        | .primitive .null, _ => true
        | .union alternatives, _ => alternatives.all fun t => c.isAssignableWithin room t target
        | _, .union alternatives => alternatives.any fun t => c.isAssignableWithin room source t
        | .primitive a, .primitive b => a == b
        | .named a, .named b => a == b || c.isSubtype a b
        | .buffer a, .buffer b => a == b
        | .buffer kind, .named name => kind.viewName == name
        | .array a, .array b => c.isAssignableWithin room a b
        | .promise a, .promise b => c.isAssignableWithin room a b
        | .function sourceParams sourceReturns, .function targetParams targetReturns =>
          acceptsCalls (c.isAssignableWithin room) sourceParams targetParams &&
            (targetReturns.isVoid || c.isAssignableWithin room sourceReturns targetReturns)
        | .record sourceFields, .record targetFields =>
          targetFields.all fun (name, t) =>
            (sourceFields.find? (·.1 == name)).any fun (_, s) => c.isAssignableWithin room s t
        | _, _ => false

/-- The levels of nesting, aliases included, that are looked into. -/
def assignabilityDepth : Nat := 32

/-- Whether every value of the source type can be used as one of the target type. -/
def isAssignable (c : Catalog) (source target : TypeExpr) : Bool :=
  c.isAssignableWithin assignabilityDepth source target

/-! ### Members in place of inherited ones -/

/-- Why a member does not fit in the place of an inherited one. -/
inductive OverrideFault
  | propertyAsMethod
  | methodAsProperty
  | typeWidens (new old : TypeExpr)
  | returnWidens (new old : TypeExpr)
  | paramNarrows (param : String) (old new : TypeExpr)
  | paramNotOptional (param : String)
  | paramRequired (param : String)
  deriving DecidableEq

/-- The text of a fault of a member in the place of an inherited one. -/
def OverrideFault.message : OverrideFault → String
  | .propertyAsMethod => "a property is redeclared as a method"
  | .methodAsProperty => "a method is redeclared as a property"
  | .typeWidens new old => "type " ++ new.text ++ " widens " ++ old.text
  | .returnWidens new old => "return type " ++ new.text ++ " widens " ++ old.text
  | .paramNarrows param old new =>
    "parameter " ++ param ++ " narrows " ++ old.text ++ " to " ++ new.text
  | .paramNotOptional param => "parameter " ++ param ++ " is no longer optional"
  | .paramRequired param => "parameter " ++ param ++ " is required"

/-- The first parameter of a method that refuses a call of the inherited one. -/
def paramFault? (c : Catalog) : List Parameter → List Parameter → Option OverrideFault
  | _, [] => none
  | [], new :: rest =>
    if new.optional then c.paramFault? [] rest else some (.paramRequired new.name)
  | old :: olds, new :: rest =>
    if !c.isAssignable old.type new.type then some (.paramNarrows new.name old.type new.type)
    else if old.optional && !new.optional then some (.paramNotOptional new.name)
    else c.paramFault? olds rest

/-- Why a member does not fit in the place of an inherited one, if it does not. A property may
be of a narrower type; a method may return a narrower type and accept more calls. -/
def overrideFault? (c : Catalog) (inherited overriding : Member) : Option OverrideFault :=
  match inherited.kind, overriding.kind with
  | .property .., .method .. => some .propertyAsMethod
  | .method .., .property .. => some .methodAsProperty
  | .property old .., .property new .. =>
    if c.isAssignable new old then none else some (.typeWidens new old)
  | .method oldParams oldReturns _, .method newParams newReturns _ =>
    if !oldReturns.isVoid && !c.isAssignable newReturns oldReturns then
      some (.returnWidens newReturns oldReturns)
    else c.paramFault? oldParams newParams

end ApiCatalog.Catalog
