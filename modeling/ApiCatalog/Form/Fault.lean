import ApiCatalog.Form.Basic
import ApiCatalog.Problem

/-!
# Forms without a meaning

Why a form denotes no declaration, member or type expression. A fault is found at a form
and carries its span.
-/

namespace ApiCatalog

/-- Why a form has no meaning where it stands. -/
inductive FormFault
  -- Type expressions
  | invalidTypeName (name : String)
  | emptyType
  | constructorNotSymbol (got : FormSort)
  | fieldNotKeyword (got : FormSort)
  | duplicateField (name : String)
  | notType (got : FormSort)
  | argumentCount (constructor : String) (count : Nat)
  | unknownBuffer
  | shortUnion
  | unknownConstructor (name : String)
  | functionShape
  | callbackParamsNotVector (got : FormSort)
  -- Declarations
  | unknownDeclaration (head : String)
  | notDeclaration (got : FormSort)
  | headMismatch (head : String)
  | nameMissing (head : String)
  | aliasMissing
  | typeNameExpected (place : String) (got : FormSort)
  | unknownClause (kind name : String)
  | duplicateClause (name : String)
  | keywordExpected (got : FormSort)
  | valueMissing (name : String)
  | notVector (place : String) (got : FormSort)
  -- Enumerations
  | literalKindExpected
  | literalKindMissing
  | valuesNotMap (got : FormSort)
  | symbolNotKeyword (got : FormSort)
  | notLiteral (got : FormSort)
  | literalKindMismatch (symbol : String)
  -- Members
  | notMember
  | memberNameExpected (head : String) (got : FormSort)
  | propertyTypeMissing (name : String)
  | unknownPropertyFlag (name : String)
  | paramsMissing (name : String)
  | mutatedNotName
  | unknownMethodClause (name : String)
  | paramNotList (got : FormSort)
  | paramShape
  | paramNameNotSymbol
  | duplicateParam (name : String)
  -- Annotations
  | noteNotString
  | unknownDeprecationKey
  | invalidDeprecation (got : FormSort)
  | linkNotString
  | referenceExpected
  deriving DecidableEq, Repr

/-- The text of a fault. -/
def FormFault.message : FormFault → String
  | .invalidTypeName name => "invalid type name `" ++ name ++ "`"
  | .emptyType => "empty type expression"
  | .constructorNotSymbol got => "type constructor must be a symbol, got " ++ got.name
  | .fieldNotKeyword got => "record field must be a keyword, got " ++ got.name
  | .duplicateField name => "duplicate record field :" ++ name
  | .notType got => "expected type expression, got " ++ got.name
  | .argumentCount constructor count =>
    "(" ++ constructor ++ " ...) takes exactly one type, got " ++ toString count
  | .unknownBuffer => "unknown buffer element kind"
  | .shortUnion => "(union ...) needs at least two alternatives"
  | .unknownConstructor name => "unknown type constructor `" ++ name ++ "`"
  | .functionShape =>
    "(function [params] return) takes a parameter vector and an optional return type"
  | .callbackParamsNotVector got => "callback parameters must be a vector, got " ++ got.name
  | .unknownDeclaration head => "unknown declaration form `" ++ head ++ "`"
  | .notDeclaration got => "expected a declaration, got " ++ got.name
  | .headMismatch head => "expected (" ++ head ++ " ...) form"
  | .nameMissing head => head ++ " requires a name"
  | .aliasMissing => "typedef: requires an aliased type"
  | .typeNameExpected place got => place ++ " expects a type name, got " ++ got.name
  | .unknownClause kind name => "unknown " ++ kind ++ " clause :" ++ name
  | .duplicateClause name => "duplicate clause :" ++ name
  | .keywordExpected got => "expected keyword, got " ++ got.name
  | .valueMissing name => "missing value for :" ++ name
  | .notVector place got => place ++ " must be a vector, got " ++ got.name
  | .literalKindExpected => ":of must be `string` or `number`"
  | .literalKindMissing => "enum: requires :of"
  | .valuesNotMap got => ":values must be a map, got " ++ got.name
  | .symbolNotKeyword got => "enum value name must be a keyword, got " ++ got.name
  | .notLiteral got => "enum value must be a literal, got " ++ got.name
  | .literalKindMismatch symbol => "value of :" ++ symbol ++ " does not match enum type"
  | .notMember => "member must be a (property ...) or (method ...) form"
  | .memberNameExpected head got => head ++ " name must be an identifier, got " ++ got.name
  | .propertyTypeMissing name => "property " ++ name ++ " requires a type"
  | .unknownPropertyFlag name => "unknown property flag :" ++ name
  | .paramsMissing name => "method " ++ name ++ " requires a parameter vector"
  | .mutatedNotName => ":mutates entries must be property names"
  | .unknownMethodClause name => "unknown method clause :" ++ name
  | .paramNotList got => "parameter must be a (name Type) list, got " ++ got.name
  | .paramShape => "parameter must be (name Type) or (name Type :optional)"
  | .paramNameNotSymbol => "parameter name must be a symbol"
  | .duplicateParam name => "duplicate parameter " ++ name
  | .noteNotString => ":note must be a string"
  | .unknownDeprecationKey => "deprecation map accepts :replacement and :note"
  | .invalidDeprecation got => "invalid :deprecated value " ++ got.name
  | .linkNotString => ":see entries must be strings"
  | .referenceExpected => "expected a `Type` or `Type/member` reference"

/-- A fault and the span of the form where it was found. -/
structure FaultAt where
  fault : FormFault
  span : Span
  deriving DecidableEq, Repr

/-- The problem that a fault in a form is. The line of the text is filled in where the text is
known. -/
def FaultAt.problem (f : FaultAt) : Problem :=
  ⟨.malformed f.fault.message f.span.line f.span.column "", none⟩

/-- The meaning of a form, or the fault that denies it one. -/
abbrev Meaning (α : Type) := Except FaultAt α

namespace Form

/-- A fault at the form. -/
def reject {α : Type} (f : Form) (fault : FormFault) : Meaning α := .error ⟨fault, f.span⟩

/-- The items of a vector. -/
def expectVector (f : Form) (place : String) : Meaning (List Form) :=
  match f.vector? with
  | some items => .ok items
  | none => f.reject (.notVector place f.sort)

/-- The name of a keyword. -/
def expectKeyword (f : Form) : Meaning String :=
  match f.keyword? with
  | some name => .ok name
  | none => f.reject (.keywordExpected f.sort)

end Form

namespace Meaning

variable {α β : Type}

@[simp] theorem ok_bind (a : α) (k : α → Meaning β) : (.ok a : Meaning α) >>= k = k a := rfl

@[simp] theorem error_bind (e : FaultAt) (k : α → Meaning β) :
    (.error e : Meaning α) >>= k = .error e := rfl

theorem bind_eq_ok {m : Meaning α} {k : α → Meaning β} {b : β} :
    m >>= k = .ok b ↔ ∃ a, m = .ok a ∧ k a = .ok b := by
  cases m <;> simp

@[simp] theorem reject_ne_ok {f : Form} {fault : FormFault} {a : α} : f.reject fault ≠ .ok a := by
  simp [Form.reject]

end Meaning

end ApiCatalog
