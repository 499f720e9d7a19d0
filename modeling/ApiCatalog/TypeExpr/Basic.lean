/-!
# Type expressions

The shapes that a declared value can have: primitives, references to named types, buffers,
arrays, promises, unions, callbacks and records, and the two qualifiers that say whether null
belongs to a type.

Main statements: `TypeExpr.same_iff`, by which equality of type expressions is decidable.
-/

namespace ApiCatalog

/-- The primitive types. -/
inductive Primitive
  | number
  | string
  | boolean
  | void
  | undefined
  | null
  deriving DecidableEq, Repr

namespace Primitive

/-- All primitive types. -/
def all : List Primitive := [number, string, boolean, void, undefined, null]

/-- The keyword of a primitive type. -/
def name : Primitive → String
  | number => "number"
  | string => "string"
  | boolean => "boolean"
  | void => "void"
  | undefined => "undefined"
  | null => "null"

/-- The primitive type with the given keyword. -/
def ofName? (s : String) : Option Primitive := all.find? (·.name == s)

end Primitive

/-- What the elements of a buffer are. -/
inductive BufferElement
  | bytes
  | int8
  | uint8
  | uint8Clamped
  | int16
  | uint16
  | int32
  | uint32
  | float32
  | float64
  deriving DecidableEq, Repr

namespace BufferElement

/-- All kinds of buffers. -/
def all : List BufferElement :=
  [bytes, int8, uint8, uint8Clamped, int16, uint16, int32, uint32, float32, float64]

/-- The keyword of a kind of buffers. -/
def keyword : BufferElement → String
  | bytes => "bytes"
  | int8 => "int8"
  | uint8 => "uint8"
  | uint8Clamped => "uint8-clamped"
  | int16 => "int16"
  | uint16 => "uint16"
  | int32 => "int32"
  | uint32 => "uint32"
  | float32 => "float32"
  | float64 => "float64"

/-- The name under which the platform knows a kind of buffers. -/
def viewName : BufferElement → String
  | bytes => "ArrayBuffer"
  | int8 => "Int8Array"
  | uint8 => "Uint8Array"
  | uint8Clamped => "Uint8ClampedArray"
  | int16 => "Int16Array"
  | uint16 => "Uint16Array"
  | int32 => "Int32Array"
  | uint32 => "Uint32Array"
  | float32 => "Float32Array"
  | float64 => "Float64Array"

/-- The kind of buffers with the given keyword. -/
def ofKeyword? (s : String) : Option BufferElement := all.find? (·.keyword == s)

end BufferElement

/-- The shape of a value. The parameters of a function say whether a call may leave them out. -/
inductive TypeExpr
  | primitive (kind : Primitive)
  | any
  | unknown
  | named (name : String)
  | nullable (inner : TypeExpr)
  | nonNull (inner : TypeExpr)
  | array (element : TypeExpr)
  | buffer (kind : BufferElement)
  | union (alternatives : List TypeExpr)
  | promise (payload : TypeExpr)
  | function (params : List (TypeExpr × Bool)) (returns : TypeExpr)
  | record (fields : List (String × TypeExpr))

namespace TypeExpr

instance : Inhabited TypeExpr := ⟨.any⟩

/-! ### Equality -/

mutual

/-- Whether two type expressions are equal. -/
def same : TypeExpr → TypeExpr → Bool
  | .primitive a, .primitive b => a == b
  | .any, .any => true
  | .unknown, .unknown => true
  | .named a, .named b => a == b
  | .nullable a, .nullable b => same a b
  | .nonNull a, .nonNull b => same a b
  | .array a, .array b => same a b
  | .buffer a, .buffer b => a == b
  | .union a, .union b => sameAll a b
  | .promise a, .promise b => same a b
  | .function a r, .function b s => sameParams a b && same r s
  | .record a, .record b => sameFields a b
  | _, _ => false

/-- Whether two lists of type expressions are equal. -/
def sameAll : List TypeExpr → List TypeExpr → Bool
  | [], [] => true
  | a :: as, b :: bs => same a b && sameAll as bs
  | _, _ => false

/-- Whether two lists of parameters are equal. -/
def sameParams : List (TypeExpr × Bool) → List (TypeExpr × Bool) → Bool
  | [], [] => true
  | (a, p) :: as, (b, q) :: bs => same a b && p == q && sameParams as bs
  | _, _ => false

/-- Whether two lists of fields are equal. -/
def sameFields : List (String × TypeExpr) → List (String × TypeExpr) → Bool
  | [], [] => true
  | (m, a) :: as, (n, b) :: bs => m == n && same a b && sameFields as bs
  | _, _ => false

end

mutual

theorem same_iff : ∀ a b : TypeExpr, same a b = true ↔ a = b
  | .primitive _, b => by cases b <;> simp [same]
  | .any, b => by cases b <;> simp [same]
  | .unknown, b => by cases b <;> simp [same]
  | .named _, b => by cases b <;> simp [same]
  | .nullable a, b => by cases b <;> simp [same, same_iff a]
  | .nonNull a, b => by cases b <;> simp [same, same_iff a]
  | .array a, b => by cases b <;> simp [same, same_iff a]
  | .buffer _, b => by cases b <;> simp [same]
  | .union as, b => by cases b <;> simp [same, sameAll_iff as]
  | .promise a, b => by cases b <;> simp [same, same_iff a]
  | .function as r, b => by cases b <;> simp [same, sameParams_iff as, same_iff r]
  | .record as, b => by cases b <;> simp [same, sameFields_iff as]

theorem sameAll_iff : ∀ as bs : List TypeExpr, sameAll as bs = true ↔ as = bs
  | [], bs => by cases bs <;> simp [sameAll]
  | a :: as, bs => by cases bs <;> simp [sameAll, same_iff a, sameAll_iff as]

theorem sameParams_iff : ∀ as bs : List (TypeExpr × Bool), sameParams as bs = true ↔ as = bs
  | [], bs => by cases bs <;> simp [sameParams]
  | (a, _) :: as, bs => by
    cases bs with
    | nil => simp [sameParams]
    | cons b bs => cases b; simp [sameParams, same_iff a, sameParams_iff as]

theorem sameFields_iff : ∀ as bs : List (String × TypeExpr), sameFields as bs = true ↔ as = bs
  | [], bs => by cases bs <;> simp [sameFields]
  | (_, a) :: as, bs => by
    cases bs with
    | nil => simp [sameFields]
    | cons b bs => cases b; simp [sameFields, same_iff a, sameFields_iff as]

end

instance : DecidableEq TypeExpr := fun a b => decidable_of_iff _ (same_iff a b)

/-! ### Qualifiers -/

/-- The type of functions that return nothing. -/
def void : TypeExpr := .primitive .void

/-- Whether the type is the one of functions that return nothing. -/
def isVoid : TypeExpr → Bool
  | .primitive .void => true
  | _ => false

/-- The type without the qualifiers at its front. -/
def bare : TypeExpr → TypeExpr
  | .nullable inner => inner.bare
  | .nonNull inner => inner.bare
  | t => t

mutual

/-- Whether null belongs to the type. It does to references, arrays, buffers and promises that
are not marked otherwise, but not to primitives, functions and records. -/
def isNullable : TypeExpr → Bool
  | .nonNull _ => false
  | .nullable _ => true
  | .any => true
  | .unknown => true
  | .named _ => true
  | .array _ => true
  | .buffer _ => true
  | .promise _ => true
  | .primitive kind => kind == .null
  | .union alternatives => anyNullable alternatives
  | .function .. => false
  | .record _ => false

/-- Whether null belongs to one of the types. -/
def anyNullable : List TypeExpr → Bool
  | [] => false
  | t :: ts => t.isNullable || anyNullable ts

end

/-- What a promise promises, whatever its qualifiers. -/
def payload? (t : TypeExpr) : Option TypeExpr :=
  match t.bare with
  | .promise payload => some payload
  | _ => none

/-! ### Parts -/

mutual

/-- The type and all types in it, each before its parts. -/
def parts (t : TypeExpr) : List TypeExpr :=
  t :: match t with
    | .nullable inner => inner.parts
    | .nonNull inner => inner.parts
    | .array element => element.parts
    | .promise payload => payload.parts
    | .union alternatives => partsOfAll alternatives
    | .function params returns => partsOfParams params ++ returns.parts
    | .record fields => partsOfFields fields
    | _ => []

/-- The types in a list of types. -/
def partsOfAll : List TypeExpr → List TypeExpr
  | [] => []
  | t :: ts => t.parts ++ partsOfAll ts

/-- The types in a list of parameters. -/
def partsOfParams : List (TypeExpr × Bool) → List TypeExpr
  | [] => []
  | (t, _) :: ts => t.parts ++ partsOfParams ts

/-- The types in a list of fields. -/
def partsOfFields : List (String × TypeExpr) → List TypeExpr
  | [] => []
  | (_, t) :: ts => t.parts ++ partsOfFields ts

end

/-- The names that the type refers to, in the order of the text. -/
def mentions (t : TypeExpr) : List String :=
  t.parts.filterMap fun
    | .named name => some name
    | _ => none

/-! ### Text -/

mutual

/-- The text of a type for a reader. -/
def text : TypeExpr → String
  | .primitive kind => kind.name
  | .any => "*"
  | .unknown => "?"
  | .named name => name
  | .nullable inner => "?" ++ inner.text
  | .nonNull inner => "!" ++ inner.text
  | .array element => "Array<" ++ element.text ++ ">"
  | .buffer kind => kind.viewName
  | .union alternatives => "(" ++ textOfAll alternatives ++ ")"
  | .promise payload => "Promise<" ++ payload.text ++ ">"
  | .function params returns =>
    "function(" ++ textOfParams params ++ ")" ++
      if returns.isVoid then "" else ": " ++ returns.text
  | .record fields => "\x7b" ++ textOfFields fields ++ "\x7d"

/-- The texts of alternatives. -/
def textOfAll : List TypeExpr → String
  | [] => ""
  | [t] => t.text
  | t :: next :: ts => t.text ++ "|" ++ textOfAll (next :: ts)

/-- The texts of parameters; one that may be left out is followed by an equals sign. -/
def textOfParams : List (TypeExpr × Bool) → String
  | [] => ""
  | [(t, optional)] => t.text ++ if optional then "=" else ""
  | (t, optional) :: next :: ts =>
    t.text ++ (if optional then "=" else "") ++ ", " ++ textOfParams (next :: ts)

/-- The texts of fields. -/
def textOfFields : List (String × TypeExpr) → String
  | [] => ""
  | [(name, t)] => name ++ ": " ++ t.text
  | (name, t) :: next :: ts => name ++ ": " ++ t.text ++ ", " ++ textOfFields (next :: ts)

end

end TypeExpr

end ApiCatalog
