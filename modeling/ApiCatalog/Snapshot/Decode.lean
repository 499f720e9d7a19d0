import ApiCatalog.Snapshot.Encode

/-!
# Catalogs from snapshots

A catalog is restored from a MessagePack value whose structures are maps from field names or
arrays of all fields in order. Unknown fields are ignored, and a field that may be missing need
not be there; any other field has to be, once. A field or tag is named by its text or, counting
from zero, by its number. What the snapshot says of cyclic types and of overrides is taken as it
stands.

Arrays, maps and extensions nest only so many levels deep, in what is ignored too. The map that
joins the tag of a variant to its data is no level. So whatever takes something from a value is
told how many levels it may still enter, and an `Unpacker` enters one for each array and each
structure.

Main definitions: `Unpacker`, `Catalog.ofSnapshot?`.
-/

namespace ApiCatalog

open scoped CorePowers

namespace MessagePack

/-! ### Plain values -/

/-- The string of a value, text or binary, that is valid UTF-8. -/
def string? : MessagePack → Option String
  | .text utf8 => String.fromUTF8? ⟨utf8.toArray⟩
  | .binary data => String.fromUTF8? ⟨data.toArray⟩
  | _ => none

/-- The truth value of a value. -/
def bool? : MessagePack → Option Bool
  | .bool b => some b
  | _ => none

/-- The integer of a value, if 64 bits hold it. -/
def int64? : MessagePack → Option Int64
  | .unsigned n => if n < 2 ^ (63 : Nat) then some (Int64.ofInt n) else none
  | .signed n => if -2 ^ (63 : Nat) ≤ n ∧ n < 2 ^ (63 : Nat) then some (Int64.ofInt n) else none
  | _ => none

/-- The floating-point number of 64 bits that one of 32 bits is equal to. What is no number
becomes a quiet one. -/
def widen (bits : UInt32) : Binary64 :=
  let isNegative := 2 ^ (31 : Nat) ≤ bits.toNat
  let exponent := bits.toNat / 2 ^ (23 : Nat) % 2 ^ (8 : Nat)
  let fraction := bits.toNat % 2 ^ (23 : Nat)
  .ofMagnitude isNegative <|
    if exponent = 0 then Binary64.roundRatio fraction (2 ^ (149 : Nat))
    else if exponent < 255 then
      Binary64.roundRatio ((2 ^ (23 : Nat) + fraction) * 2 ^ exponent) (2 ^ (150 : Nat))
    else if fraction = 0 then Binary64.infinity
    else Binary64.infinity + (2 ^ (22 : Nat) ||| fraction) * 2 ^ (29 : Nat)

/-- The floating-point number of a value; an integer is rounded to the nearest. -/
def float64? : MessagePack → Option Binary64
  | .float64 x => some x
  | .float32 bits => some (widen bits)
  | .unsigned n => some (.ofMagnitude false (Binary64.roundRatio n 1))
  | .signed n => some (.ofMagnitude (n < 0) (Binary64.roundRatio n.natAbs 1))
  | _ => none

/-! ### Levels -/

mutual

/-- How many levels of arrays, maps and extensions a value nests. -/
def depth : MessagePack → Nat
  | .array items => depthOfAll items + 1
  | .map entries => depthOfEntries entries + 1
  | .extension .. => 1
  | _ => 0

/-- How many levels values nest. -/
def depthOfAll : List MessagePack → Nat
  | [] => 0
  | v :: vs => max v.depth (depthOfAll vs)

/-- How many levels entries nest. -/
def depthOfEntries : List (MessagePack × MessagePack) → Nat
  | [] => 0
  | (k, v) :: es => max (max k.depth v.depth) (depthOfEntries es)

end

/-- Takes something from a value that may enter so many levels. -/
abbrev Unpacker (α : Type) := Nat → MessagePack → Option α

/-- The items of an array. Binary data is a sequence of bytes, none of which is an item of a
snapshot, so only empty data is a list. -/
def list? {α : Type} (unpack : Unpacker α) : Unpacker (List α)
  | room + 1, .array items => items.mapM (unpack room)
  | _, .binary [] => some []
  | _, _ => none

/-- The strings of an array. -/
def strings? : Unpacker (List String) := list? fun _ => string?

/-! ### Structures and variants -/

/-- The number of the field or tag that a value names, or that it names another one. -/
def index? (names : List String) : MessagePack → Option (Option Nat)
  | .text utf8 => some (names.findIdx? fun name => name.toByteArray.data.toList == utf8)
  | .binary data => some (names.findIdx? fun name => name.toByteArray.data.toList == data)
  | .unsigned n => some (if n < names.length then some n else none)
  | _ => none

/-- The fields with one entry added; the field of an entry has to be free. An entry for no field
is ignored. -/
def addField (names : List String) (room : Nat) (fields : List (Option MessagePack))
    (entry : MessagePack × MessagePack) : Option (List (Option MessagePack)) :=
  match index? names entry.1 with
  | none => none
  | some none => if entry.2.depth ≤ room then some fields else none
  | some (some i) =>
    match fields[i]? with
    | some none => some (fields.set i (some entry.2))
    | _ => none

/-- The fields of a structure in the order of their names. -/
def fields? (names : List String) : Unpacker (List (Option MessagePack))
  | _, .array items => if items.length = names.length then some (items.map some) else none
  | room, .map entries => entries.foldlM (addField names room) (names.map fun _ => none)
  | _, _ => none

/-- What `build` makes of the fields of a structure, in the order of their names. -/
def struct? {α : Type} (names : List String)
    (build : Nat → List (Option MessagePack) → Option α) : Unpacker α
  | 0, _ => none
  | room + 1, v => (fields? names room v).bind (build room)

/-- The value of a field that has to be there. -/
def requiredField {α : Type} (unpack : MessagePack → Option α) (field : Option MessagePack) :
    Option α :=
  field.bind unpack

/-- The value of a field that may be missing or nil. -/
def optionalField {α : Type} (unpack : MessagePack → Option α) (field : Option MessagePack) :
    Option (Option α) :=
  match field with
  | none => some none
  | some .nil => some none
  | some v => (unpack v).map some

/-- The number of a variant's tag, and its data if it carries any. -/
def variant? (tags : List String) : MessagePack → Option (Nat × Option MessagePack)
  | .map [(tag, data)] => (index? tags tag).join.map fun i => (i, some data)
  | .map _ => none
  | .array _ => none
  | tag => (index? tags tag).join.map fun i => (i, none)

/-- The variant, among some that carry no data, that a value is. -/
def unit? {α : Type} (all : List α) (tag : α → String) (v : MessagePack) : Option α :=
  match variant? (all.map tag) v with
  | some (i, none) => all[i]?
  | some (i, some .nil) => all[i]?
  | _ => none

/-- The map from names that a value is. -/
def nameMap? {α : Type} (unpack : Unpacker α) : Unpacker (NameMap α)
  | room + 1, .map entries =>
    (entries.mapM fun (key, value) => do
      some (← string? key, ← unpack room value)).map NameMap.ofList
  | _, _ => none

/-- The set of names that a value is. -/
def nameSet? : Unpacker NameSet := fun room v => (strings? room v).map NameSet.ofNames

/-- The ordered map that a value is. -/
def orderedMap? {α : Type} (unpack : Unpacker α) : Unpacker (OrderedMap α) :=
  struct? ["order", "entries"] fun
    | room, [order, entries] => do
      some ⟨← requiredField (strings? room) order, ← requiredField (nameMap? unpack room) entries⟩
    | _, _ => none

end MessagePack

open MessagePack

/-! ### Type expressions -/

namespace TypeExpr

/-- The tags of type expressions. -/
def tags : List String :=
  ["Primitive", "Any", "Unknown", "Named", "Nullable", "NonNull", "Array", "Buffer", "Union",
    "Promise", "Function", "Record"]

/-- The parameter that a value is. -/
def unpackParam (unpack : Unpacker TypeExpr) : Unpacker (TypeExpr × Bool) :=
  struct? ["ty", "optional"] fun
    | room, [type, optional] => do
      some (← requiredField (unpack room) type, ← requiredField bool? optional)
    | _, _ => none

/-- The field that a value is. -/
def unpackField (unpack : Unpacker TypeExpr) : Unpacker (String × TypeExpr)
  | room + 1, .array [name, type] => do some (← string? name, ← unpack room type)
  | _, _ => none

/-- The function that a value is. -/
def unpackFunction (unpack : Unpacker TypeExpr) : Unpacker TypeExpr :=
  struct? ["params", "returns"] fun
    | room, [params, returns] => do
      some (.function (← requiredField (list? (unpackParam unpack) room) params)
        (← requiredField (unpack room) returns))
    | _, _ => none

/-- The type expression that a value of at most the given depth is. -/
def unpackNested : Nat → Unpacker TypeExpr
  | 0, _, v =>
    match variant? tags v with
    | some (1, none) => some .any
    | some (2, none) => some .unknown
    | _ => none
  | depth + 1, room, v =>
    match variant? tags v with
    | some (1, none) => some .any
    | some (2, none) => some .unknown
    | some (0, some data) => (unit? Primitive.all Primitive.tag data).map .primitive
    | some (1, some .nil) => some .any
    | some (2, some .nil) => some .unknown
    | some (3, some data) => (string? data).map .named
    | some (4, some data) => (unpackNested depth room data).map .nullable
    | some (5, some data) => (unpackNested depth room data).map .nonNull
    | some (6, some data) => (unpackNested depth room data).map .array
    | some (7, some data) => (unit? BufferElement.all BufferElement.tag data).map .buffer
    | some (8, some data) => (list? (unpackNested depth) room data).map .union
    | some (9, some data) => (unpackNested depth room data).map .promise
    | some (10, some data) => unpackFunction (unpackNested depth) room data
    | some (11, some data) => (list? (unpackField (unpackNested depth)) room data).map .record
    | _ => none

/-- The type expression that a value is. -/
def unpack : Unpacker TypeExpr := fun room v => unpackNested v.depth room v

end TypeExpr

/-! ### Declarations -/

/-- The reference that a value is. -/
def Reference.unpack : Unpacker Reference :=
  struct? ["type_name", "member"] fun
    | _, [type, member] => do
      some ⟨← requiredField string? type, ← optionalField string? member⟩
    | _, _ => none

/-- The deprecation that a value is. -/
def Deprecation.unpack : Unpacker Deprecation :=
  struct? ["replacement", "note"] fun
    | room, [replacement, note] => do
      some ⟨← optionalField (Reference.unpack room) replacement, ← optionalField string? note⟩
    | _, _ => none

/-- The parameter that a value is. -/
def Parameter.unpack : Unpacker Parameter :=
  struct? ["name", "ty", "optional"] fun
    | room, [name, type, optional] => do
      some ⟨← requiredField string? name, ← requiredField (TypeExpr.unpack room) type,
        ← requiredField bool? optional⟩
    | _, _ => none

/-- The property that a value is. -/
def MemberKind.unpackProperty : Unpacker MemberKind :=
  struct? ["ty", "readonly", "constant"] fun
    | room, [type, isReadonly, isConstant] => do
      some (.property (← requiredField (TypeExpr.unpack room) type)
        (← requiredField bool? isReadonly) (← requiredField bool? isConstant))
    | _, _ => none

/-- The method that a value is. -/
def MemberKind.unpackMethod : Unpacker MemberKind :=
  struct? ["params", "returns", "mutates"] fun
    | room, [params, returns, mutates] => do
      some (.method (← requiredField (list? Parameter.unpack room) params)
        (← requiredField (TypeExpr.unpack room) returns)
        (← requiredField (strings? room) mutates))
    | _, _ => none

/-- What a member is, from a value. -/
def MemberKind.unpack : Unpacker MemberKind := fun room v =>
  match variant? ["Property", "Method"] v with
  | some (0, some data) => unpackProperty room data
  | some (1, some data) => unpackMethod room data
  | _ => none

/-- The member that a value is. -/
def Member.unpack : Unpacker Member :=
  struct? ["name", "kind", "deprecated", "see"] fun
    | room, [name, kind, deprecated, see] => do
      some ⟨← requiredField string? name, ← requiredField (MemberKind.unpack room) kind,
        ← optionalField (Deprecation.unpack room) deprecated,
        ← requiredField (strings? room) see⟩
    | _, _ => none

/-- The declaration of a type that a value is. -/
def TypeDeclaration.unpack : Unpacker TypeDeclaration :=
  struct? ["name", "kind", "extends", "implements", "template", "constructor", "alias", "members",
    "deprecated", "see"] fun
    | room, [name, kind, parent, capabilities, template, constructor, aliased, members,
        deprecated, see] => do
      some ⟨← requiredField string? name, ← requiredField (unit? TypeKind.all TypeKind.tag) kind,
        ← optionalField string? parent, ← requiredField (strings? room) capabilities,
        ← requiredField (strings? room) template,
        ← optionalField (list? Parameter.unpack room) constructor,
        ← optionalField (TypeExpr.unpack room) aliased,
        ← requiredField (list? Member.unpack room) members,
        ← optionalField (Deprecation.unpack room) deprecated,
        ← requiredField (strings? room) see⟩
    | _, _ => none

/-- The literal that a value is. -/
def Literal.unpack (v : MessagePack) : Option Literal :=
  match variant? ["String", "Int", "Float"] v with
  | some (0, some data) => (MessagePack.string? data).map .string
  | some (1, some data) => (int64? data).map .int
  | some (2, some data) => (float64? data).map .float
  | _ => none

/-- The symbol with its literal that a value is. -/
def EnumSymbol.unpack : Unpacker EnumSymbol :=
  struct? ["name", "value"] fun
    | _, [name, value] => do
      some ⟨← requiredField string? name, ← requiredField Literal.unpack value⟩
    | _, _ => none

/-- The declaration of an enumeration that a value is. -/
def Enumeration.unpack : Unpacker Enumeration :=
  struct? ["name", "kind", "variants", "deprecated", "see"] fun
    | room, [name, kind, symbols, deprecated, see] => do
      some ⟨← requiredField string? name,
        ← requiredField (unit? LiteralKind.all LiteralKind.tag) kind,
        ← requiredField (list? EnumSymbol.unpack room) symbols,
        ← optionalField (Deprecation.unpack room) deprecated,
        ← requiredField (strings? room) see⟩
    | _, _ => none

/-! ### Catalogs -/

namespace Catalog

/-- The catalog that a value is. -/
def unpack : Unpacker Catalog :=
  struct? ["types", "enums", "cyclic", "overrides"] fun
    | room, [types, enums, cyclic, overrides] => do
      some ⟨← requiredField (orderedMap? TypeDeclaration.unpack room) types,
        ← requiredField (orderedMap? Enumeration.unpack room) enums,
        ← requiredField (nameSet? room) cyclic,
        ← requiredField (nameMap? (nameMap? fun _ => string?) room) overrides⟩
    | _, _ => none

/-- The number of levels that a snapshot may nest. -/
def snapshotDepth : Nat := 1023

/-- The catalog at the start of bytes; what follows it is ignored. -/
def ofSnapshot? (bytes : List UInt8) : Option Catalog :=
  (MessagePack.read bytes).bind fun (v, _) => unpack snapshotDepth v

/-- The catalog at the start of bytes, or the problem that there is none, in the decoder's own
wording. -/
def ofSnapshot (wording : List UInt8 → String) (bytes : List UInt8) : Except Problem Catalog :=
  match ofSnapshot? bytes with
  | some c => .ok c
  | none => .error ⟨.serialization (wording bytes), none⟩

end Catalog

end ApiCatalog
