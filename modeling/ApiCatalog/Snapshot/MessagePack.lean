import ApiCatalog.Number.Binary64

/-!
# MessagePack

The binary format MessagePack: a marker byte says what a value is, and for short values also
how long it is; longer ones have their length behind the marker. Numbers are written with the
most significant byte first. Values are written in the shortest way, non-negative integers
always as unsigned ones; in reading, any width will do.

Main definitions: `MessagePack.bytes`, `MessagePack.read`.
-/

namespace ApiCatalog

open scoped CorePowers

/-- A value of the format. Texts are kept as bytes, since nothing makes them valid UTF-8. -/
inductive MessagePack
  | nil
  | bool (value : Bool)
  | unsigned (value : Nat)
  | signed (value : Int)
  | float32 (bits : UInt32)
  | float64 (value : Binary64)
  | text (utf8 : List UInt8)
  | binary (data : List UInt8)
  | array (items : List MessagePack)
  | map (entries : List (MessagePack × MessagePack))
  | extension (type : UInt8) (data : List UInt8)

namespace MessagePack

instance : Inhabited MessagePack := ⟨.nil⟩

/-! ### Numbers as bytes -/

/-- The last `width` bytes of a number, the most significant first. -/
def bigEndian : Nat → Nat → List UInt8
  | 0, _ => []
  | width + 1, n => bigEndian width (n / 256) ++ [UInt8.ofNat n]

/-- The number that bytes denote, the most significant first. -/
def ofBigEndian (bs : List UInt8) : Nat := bs.foldl (fun n b => n * 256 + b.toNat) 0

/-- The integer that bytes denote in two's complement. -/
def ofTwosComplement (bs : List UInt8) : Int :=
  let n := ofBigEndian bs
  if 2 * n < 256 ^ bs.length then n else n - 256 ^ bs.length

/-! ### Writing -/

/-- The marker of a length: within the marker if it is below `short`, else behind the first of
the wider markers whose width suffices. -/
def lengthMarker (base short : Nat) (wider : List (UInt8 × Nat)) (n : Nat) : List UInt8 :=
  if n < short then [UInt8.ofNat (base + n)]
  else
    match wider.find? fun (_, width) => n < 256 ^ width with
    | some (marker, width) => marker :: bigEndian width n
    | none => []

/-- The marker of an extension by the length of its data. -/
def extensionMarker : Nat → List UInt8
  | 1 => [0xd4]
  | 2 => [0xd5]
  | 4 => [0xd6]
  | 8 => [0xd7]
  | 16 => [0xd8]
  | n => lengthMarker 0 0 [(0xc7, 1), (0xc8, 2), (0xc9, 4)] n

/-- The bytes of a non-negative integer. -/
def unsignedBytes (n : Nat) : List UInt8 :=
  lengthMarker 0x00 0x80 [(0xcc, 1), (0xcd, 2), (0xce, 4), (0xcf, 8)] n

/-- The bytes of a negative integer. -/
def negativeBytes (n : Int) : List UInt8 :=
  let complement (width : Nat) : List UInt8 := bigEndian width (n + 256 ^ width).toNat
  if -0x20 ≤ n then complement 1
  else if -0x80 ≤ n then 0xd0 :: complement 1
  else if -0x8000 ≤ n then 0xd1 :: complement 2
  else if -0x80000000 ≤ n then 0xd2 :: complement 4
  else 0xd3 :: complement 8

mutual

/-- The bytes of a value. -/
def bytes : MessagePack → List UInt8
  | .nil => [0xc0]
  | .bool false => [0xc2]
  | .bool true => [0xc3]
  | .unsigned n => unsignedBytes n
  | .signed n => if 0 ≤ n then unsignedBytes n.toNat else negativeBytes n
  | .float32 bits => 0xca :: bigEndian 4 bits.toNat
  | .float64 x => 0xcb :: bigEndian 8 x.bits.toNat
  | .text utf8 =>
    lengthMarker 0xa0 32 [(0xd9, 1), (0xda, 2), (0xdb, 4)] utf8.length ++ utf8
  | .binary data =>
    lengthMarker 0 0 [(0xc4, 1), (0xc5, 2), (0xc6, 4)] data.length ++ data
  | .array items =>
    lengthMarker 0x90 16 [(0xdc, 2), (0xdd, 4)] items.length ++ bytesOfAll items
  | .map entries =>
    lengthMarker 0x80 16 [(0xde, 2), (0xdf, 4)] entries.length ++ bytesOfEntries entries
  | .extension type data => extensionMarker data.length ++ type :: data

/-- The bytes of values one after the other. -/
def bytesOfAll : List MessagePack → List UInt8
  | [] => []
  | v :: vs => v.bytes ++ bytesOfAll vs

/-- The bytes of entries one after the other, each name before its value. -/
def bytesOfEntries : List (MessagePack × MessagePack) → List UInt8
  | [] => []
  | (k, v) :: es => k.bytes ++ v.bytes ++ bytesOfEntries es

end

/-! ### Reading -/

/-- Something read from the start of bytes, and the bytes behind it. -/
abbrev Taken (α : Type) := Option (α × List UInt8)

/-- The first `n` bytes. -/
def takeExactly (n : Nat) (bs : List UInt8) : Taken (List UInt8) :=
  if bs.length < n then none else some (bs.take n, bs.drop n)

/-- A number of `width` bytes. -/
def takeNumber (width : Nat) (bs : List UInt8) : Taken Nat :=
  (takeExactly width bs).map fun (head, rest) => (ofBigEndian head, rest)

/-- As many bytes as a number of `width` bytes says. -/
def takeSized (width : Nat) (bs : List UInt8) : Taken (List UInt8) :=
  (takeNumber width bs).bind fun (n, rest) => takeExactly n rest

/-- The same thing `n` times. -/
def takeMany {α : Type} (one : List UInt8 → Taken α) : Nat → List UInt8 → Taken (List α)
  | 0, bs => some ([], bs)
  | n + 1, bs =>
    (one bs).bind fun (x, bs) => (takeMany one n bs).map fun (xs, bs) => (x :: xs, bs)

/-- One thing after another. -/
def takePair {α : Type} (one : List UInt8 → Taken α) (bs : List UInt8) : Taken (α × α) :=
  (one bs).bind fun (x, bs) => (one bs).map fun (y, bs) => ((x, y), bs)

/-- Makes a value of what was taken. -/
def build {α : Type} (f : α → MessagePack) (taken : Taken α) : Taken MessagePack :=
  taken.map fun (x, rest) => (f x, rest)

/-- An extension with `n` bytes of data. -/
def takeExtension (n : Nat) (bs : List UInt8) : Taken MessagePack :=
  (takeExactly (n + 1) bs).map fun (data, rest) => (.extension (data.headD 0) data.tail, rest)

/-- The value whose marker comes before the bytes; `one` reads a value inside it. -/
def readMarked (one : List UInt8 → Taken MessagePack) (marker : Nat) (bs : List UInt8) :
    Taken MessagePack :=
  let array (n : Nat) (bs : List UInt8) := build .array (takeMany one n bs)
  let map (n : Nat) (bs : List UInt8) := build .map (takeMany (takePair one) n bs)
  if marker < 0x80 then some (.unsigned marker, bs)
  else if marker < 0x90 then map (marker - 0x80) bs
  else if marker < 0xa0 then array (marker - 0x90) bs
  else if marker < 0xc0 then build .text (takeExactly (marker - 0xa0) bs)
  else if 0xe0 ≤ marker then some (.signed ((marker : Int) - 0x100), bs)
  else
    match marker with
    | 0xc0 => some (.nil, bs)
    | 0xc2 => some (.bool false, bs)
    | 0xc3 => some (.bool true, bs)
    | 0xc4 => build .binary (takeSized 1 bs)
    | 0xc5 => build .binary (takeSized 2 bs)
    | 0xc6 => build .binary (takeSized 4 bs)
    | 0xc7 => (takeNumber 1 bs).bind fun (n, bs) => takeExtension n bs
    | 0xc8 => (takeNumber 2 bs).bind fun (n, bs) => takeExtension n bs
    | 0xc9 => (takeNumber 4 bs).bind fun (n, bs) => takeExtension n bs
    | 0xca => build (fun n => .float32 (UInt32.ofNat n)) (takeNumber 4 bs)
    | 0xcb => build (fun n => .float64 ⟨UInt64.ofNat n⟩) (takeNumber 8 bs)
    | 0xcc => build .unsigned (takeNumber 1 bs)
    | 0xcd => build .unsigned (takeNumber 2 bs)
    | 0xce => build .unsigned (takeNumber 4 bs)
    | 0xcf => build .unsigned (takeNumber 8 bs)
    | 0xd0 => build (.signed ∘ ofTwosComplement) (takeExactly 1 bs)
    | 0xd1 => build (.signed ∘ ofTwosComplement) (takeExactly 2 bs)
    | 0xd2 => build (.signed ∘ ofTwosComplement) (takeExactly 4 bs)
    | 0xd3 => build (.signed ∘ ofTwosComplement) (takeExactly 8 bs)
    | 0xd4 => takeExtension 1 bs
    | 0xd5 => takeExtension 2 bs
    | 0xd6 => takeExtension 4 bs
    | 0xd7 => takeExtension 8 bs
    | 0xd8 => takeExtension 16 bs
    | 0xd9 => build .text (takeSized 1 bs)
    | 0xda => build .text (takeSized 2 bs)
    | 0xdb => build .text (takeSized 4 bs)
    | 0xdc => (takeNumber 2 bs).bind fun (n, bs) => array n bs
    | 0xdd => (takeNumber 4 bs).bind fun (n, bs) => array n bs
    | 0xde => (takeNumber 2 bs).bind fun (n, bs) => map n bs
    | 0xdf => (takeNumber 4 bs).bind fun (n, bs) => map n bs
    | _ => none

/-- The value at the start of bytes that nests fewer than the given number of levels. -/
def readNested : Nat → List UInt8 → Taken MessagePack
  | 0, _ => none
  | _ + 1, [] => none
  | room + 1, marker :: bs => readMarked (readNested room) marker.toNat bs

/-- The value at the start of bytes. Each level of nesting takes a byte at least. -/
def read (bs : List UInt8) : Taken MessagePack := readNested (bs.length + 1) bs

end MessagePack

end ApiCatalog
