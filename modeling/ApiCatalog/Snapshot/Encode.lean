import ApiCatalog.Catalog.Basic
import ApiCatalog.Snapshot.MessagePack

/-!
# Snapshots of catalogs

A snapshot holds a catalog as a MessagePack value. A structure is a map from the names of its
fields, a variant that carries data is a map from its tag to the data, and one that carries
none is its tag alone. What may be missing is nil or the value.

Main definition: `Catalog.snapshot`.
-/

namespace ApiCatalog

namespace MessagePack

/-- The text of a string. -/
def ofString (s : String) : MessagePack := .text s.toByteArray.data.toList

/-- The structure with the given fields. -/
def struct (fields : List (String × MessagePack)) : MessagePack :=
  .map (fields.map fun e => (ofString e.1, e.2))

/-- The variant with the given tag and data. -/
def variant (tag : String) (data : MessagePack) : MessagePack := .map [(ofString tag, data)]

/-- The array of the packed items of a list. -/
def ofList {α : Type} (pack : α → MessagePack) (items : List α) : MessagePack :=
  .array (items.map pack)

/-- Nil or the packed value. -/
def ofOption {α : Type} (pack : α → MessagePack) : Option α → MessagePack
  | none => .nil
  | some x => pack x

/-- The map from names to packed values. -/
def ofNameMap {α : Type} (pack : α → MessagePack) (m : NameMap α) : MessagePack :=
  .map (m.entries.map fun e => (ofString e.1, pack e.2))

/-- The array of the names of a set. -/
def ofNameSet (s : NameSet) : MessagePack := ofList ofString s.names

/-- The order of names beside the map from them to packed values. -/
def ofOrderedMap {α : Type} (pack : α → MessagePack) (m : OrderedMap α) : MessagePack :=
  struct [("order", ofList ofString m.order), ("entries", ofNameMap pack m.entries)]

end MessagePack

open MessagePack

/-! ### Tags -/

/-- The tag of a primitive type. -/
def Primitive.tag : Primitive → String
  | .number => "Number"
  | .string => "String"
  | .boolean => "Boolean"
  | .void => "Void"
  | .undefined => "Undefined"
  | .null => "Null"

/-- The tag of a kind of buffers. -/
def BufferElement.tag : BufferElement → String
  | .bytes => "Bytes"
  | .int8 => "Int8"
  | .uint8 => "Uint8"
  | .uint8Clamped => "Uint8Clamped"
  | .int16 => "Int16"
  | .uint16 => "Uint16"
  | .int32 => "Int32"
  | .uint32 => "Uint32"
  | .float32 => "Float32"
  | .float64 => "Float64"

/-- All kinds of type declarations. -/
def TypeKind.all : List TypeKind := [.classLike, .interface, .record, .typedef]

/-- The tag of a kind of type declarations. -/
def TypeKind.tag : TypeKind → String
  | .classLike => "Class"
  | .interface => "Interface"
  | .record => "Record"
  | .typedef => "Typedef"

/-- All kinds of literals. -/
def LiteralKind.all : List LiteralKind := [.string, .number]

/-- The tag of a kind of literals. -/
def LiteralKind.tag : LiteralKind → String
  | .string => "String"
  | .number => "Number"

/-! ### Type expressions -/

namespace TypeExpr

mutual

/-- The packed type expression. -/
def pack : TypeExpr → MessagePack
  | .primitive kind => variant "Primitive" (ofString kind.tag)
  | .any => ofString "Any"
  | .unknown => ofString "Unknown"
  | .named name => variant "Named" (ofString name)
  | .nullable inner => variant "Nullable" inner.pack
  | .nonNull inner => variant "NonNull" inner.pack
  | .array element => variant "Array" element.pack
  | .buffer kind => variant "Buffer" (ofString kind.tag)
  | .union alternatives => variant "Union" (.array (packAll alternatives))
  | .promise payload => variant "Promise" payload.pack
  | .function params returns =>
    variant "Function" (struct [("params", .array (packParams params)), ("returns", returns.pack)])
  | .record fields => variant "Record" (.array (packFields fields))

/-- The packed type expressions. -/
def packAll : List TypeExpr → List MessagePack
  | [] => []
  | t :: ts => t.pack :: packAll ts

/-- The packed parameters. -/
def packParams : List (TypeExpr × Bool) → List MessagePack
  | [] => []
  | (t, optional) :: ts => struct [("ty", t.pack), ("optional", .bool optional)] :: packParams ts

/-- The packed fields. -/
def packFields : List (String × TypeExpr) → List MessagePack
  | [] => []
  | (name, t) :: ts => .array [ofString name, t.pack] :: packFields ts

end

end TypeExpr

/-! ### Declarations -/

/-- The packed reference. -/
def Reference.pack (r : Reference) : MessagePack :=
  struct [("type_name", ofString r.type), ("member", ofOption ofString r.member)]

/-- The packed deprecation. -/
def Deprecation.pack (d : Deprecation) : MessagePack :=
  struct [("replacement", ofOption Reference.pack d.replacement),
    ("note", ofOption ofString d.note)]

/-- The packed parameter. -/
def Parameter.pack (p : Parameter) : MessagePack :=
  struct [("name", ofString p.name), ("ty", p.type.pack), ("optional", .bool p.optional)]

/-- What a member is, packed. -/
def MemberKind.pack : MemberKind → MessagePack
  | .property type isReadonly isConstant =>
    variant "Property" (struct
      [("ty", type.pack), ("readonly", .bool isReadonly), ("constant", .bool isConstant)])
  | .method params returns mutates =>
    variant "Method" (struct
      [("params", ofList Parameter.pack params), ("returns", returns.pack),
        ("mutates", ofList ofString mutates)])

/-- The packed member. -/
def Member.pack (m : Member) : MessagePack :=
  struct
    [("name", ofString m.name), ("kind", m.kind.pack),
      ("deprecated", ofOption Deprecation.pack m.deprecated), ("see", ofList ofString m.see)]

/-- The packed declaration of a type. -/
def TypeDeclaration.pack (d : TypeDeclaration) : MessagePack :=
  struct
    [("name", ofString d.name), ("kind", ofString d.kind.tag),
      ("extends", ofOption ofString d.parent), ("implements", ofList ofString d.capabilities),
      ("template", ofList ofString d.template),
      ("constructor", ofOption (ofList Parameter.pack) d.constructor),
      ("alias", ofOption TypeExpr.pack d.aliased), ("members", ofList Member.pack d.members),
      ("deprecated", ofOption Deprecation.pack d.deprecated), ("see", ofList ofString d.see)]

/-- The packed literal value. -/
def Literal.pack : Literal → MessagePack
  | .string s => variant "String" (ofString s)
  | .int n => variant "Int" (.signed n.toInt)
  | .float x => variant "Float" (.float64 x)

/-- The packed symbol with its literal. -/
def EnumSymbol.pack (v : EnumSymbol) : MessagePack :=
  struct [("name", ofString v.name), ("value", v.value.pack)]

/-- The packed declaration of an enumeration. -/
def Enumeration.pack (d : Enumeration) : MessagePack :=
  struct
    [("name", ofString d.name), ("kind", ofString d.kind.tag),
      ("variants", ofList EnumSymbol.pack d.symbols),
      ("deprecated", ofOption Deprecation.pack d.deprecated), ("see", ofList ofString d.see)]

/-! ### Catalogs -/

namespace Catalog

/-- The packed catalog. -/
def pack (c : Catalog) : MessagePack :=
  struct
    [("types", ofOrderedMap TypeDeclaration.pack c.types),
      ("enums", ofOrderedMap Enumeration.pack c.enums),
      ("cyclic", ofNameSet c.cyclic), ("overrides", ofNameMap (ofNameMap ofString) c.overrides)]

/-- The bytes of a catalog. -/
def snapshot (c : Catalog) : List UInt8 := c.pack.bytes

end Catalog

end ApiCatalog
