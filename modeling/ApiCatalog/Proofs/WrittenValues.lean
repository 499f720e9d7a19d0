import ApiCatalog.Snapshot.Decode

/-!
# Written values are read again

What is written of a value is read as that value, whatever bytes follow, provided that the format
can hold it: a length is a number of 32 bits, an integer one of 64. Only the sign of an integer is
not kept apart: one that is not negative is read as unsigned.

Main statement: `MessagePack.read_bytes`.
-/

namespace ApiCatalog

open scoped CorePowers

namespace MessagePack

/-! ### Numbers as bytes -/

@[simp] theorem length_bigEndian (width n : Nat) : (bigEndian width n).length = width := by
  induction width generalizing n with
  | zero => rfl
  | succ width ih => simp [bigEndian, ih]

theorem ofBigEndian_concat (bs : List UInt8) (b : UInt8) :
    ofBigEndian (bs ++ [b]) = ofBigEndian bs * 256 + b.toNat := by
  simp [ofBigEndian]

theorem ofBigEndian_bigEndian {width n : Nat} (h : n < 256 ^ width) :
    ofBigEndian (bigEndian width n) = n := by
  induction width generalizing n with
  | zero => simpa [ofBigEndian, bigEndian] using (Nat.lt_one_iff.1 h).symm
  | succ width ih =>
    have high : n / 256 < 256 ^ width := by
      rw [Nat.pow_succ] at h
      exact Nat.div_lt_of_lt_mul (Nat.mul_comm _ _ ▸ h)
    rw [bigEndian, ofBigEndian_concat, ih high, UInt8.toNat_ofNat']
    omega

theorem ofTwosComplement_bigEndian {width : Nat} {n : Int} (low : -(256 : Int) ^ width ≤ 2 * n)
    (negative : n < 0) :
    ofTwosComplement (bigEndian width (n + 256 ^ width).toNat) = n := by
  have power : ((256 ^ width : Nat) : Int) = 256 ^ width := by simp
  have number : ofBigEndian (bigEndian width (n + 256 ^ width).toNat) = (n + 256 ^ width).toNat :=
    ofBigEndian_bigEndian (by omega)
  unfold ofTwosComplement
  rw [number, length_bigEndian, if_neg (by omega)]
  omega

/-- A length stands in the marker if it is short, else behind one of the wider markers. -/
theorem lengthMarker_cases (base short : Nat) {wider : List (UInt8 × Nat)} {n : Nat}
    (fits : ∃ e ∈ wider, n < 256 ^ e.2) :
    n < short ∧ lengthMarker base short wider n = [UInt8.ofNat (base + n)] ∨
      ∃ e ∈ wider, n < 256 ^ e.2 ∧ lengthMarker base short wider n = e.1 :: bigEndian e.2 n := by
  rw [lengthMarker]
  split
  · exact .inl ⟨‹_›, rfl⟩
  · right
    split
    · rename_i marker width found
      exact ⟨(marker, width), List.mem_of_find?_eq_some found,
        by simpa using List.find?_some found, rfl⟩
    · rename_i absent
      obtain ⟨e, he, hn⟩ := fits
      exact absurd (decide_eq_true hn) (List.find?_eq_none.1 absent e he)

/-! ### Bytes in front of others -/

variable {rest : List UInt8}

theorem takeExactly_append {bs : List UInt8} {n : Nat} (h : bs.length = n) :
    takeExactly n (bs ++ rest) = some (bs, rest) := by
  subst h
  simp [takeExactly]

theorem takeNumber_append {width n : Nat} (h : n < 256 ^ width) :
    takeNumber width (bigEndian width n ++ rest) = some (n, rest) := by
  rw [takeNumber, takeExactly_append (length_bigEndian width n)]
  exact congrArg (fun n => some (n, rest)) (ofBigEndian_bigEndian h)

theorem takeSized_append {width : Nat} {bs : List UInt8} (h : bs.length < 256 ^ width) :
    takeSized width (bigEndian width bs.length ++ (bs ++ rest)) = some (bs, rest) := by
  rw [takeSized, takeNumber_append h]
  exact takeExactly_append rfl

section Sequences

variable {α : Type} {one : List UInt8 → Taken α} {bs behind : List UInt8} {x y : α}

theorem takePair_of_some (first : one bs = some (x, behind))
    (second : one behind = some (y, rest)) : takePair one bs = some ((x, y), rest) := by
  simp [takePair, first, second]

theorem takeMany_of_some {n : Nat} {xs : List α} (first : one bs = some (x, behind))
    (others : takeMany one n behind = some (xs, rest)) :
    takeMany one (n + 1) bs = some (x :: xs, rest) := by
  simp [takeMany, first, others]

end Sequences

section Markers

variable (one : List UInt8 → Taken MessagePack) {room n : Nat} (bs : List UInt8)

/-! ### Numbers within the marker -/

theorem readMarked_unsigned (h : n < 0x80) : readMarked one n bs = some (.unsigned n, bs) := by
  unfold readMarked
  exact if_pos h

theorem readMarked_map (h : n < 16) :
    readMarked one (0x80 + n) bs = build .map (takeMany (takePair one) n bs) := by
  unfold readMarked
  simp only
  rw [if_neg (by omega), if_pos (by omega), Nat.add_sub_cancel_left]

theorem readMarked_array (h : n < 16) :
    readMarked one (0x90 + n) bs = build .array (takeMany one n bs) := by
  unfold readMarked
  simp only
  rw [if_neg (by omega), if_neg (by omega), if_pos (by omega), Nat.add_sub_cancel_left]

theorem readMarked_text (h : n < 32) :
    readMarked one (0xa0 + n) bs = build .text (takeExactly n bs) := by
  unfold readMarked
  simp only
  rw [if_neg (by omega), if_neg (by omega), if_neg (by omega), if_pos (by omega),
    Nat.add_sub_cancel_left]

theorem readMarked_signed (h : 0xe0 ≤ n) :
    readMarked one n bs = some (.signed ((n : Int) - 0x100), bs) := by
  unfold readMarked
  simp only
  rw [if_neg (by omega), if_neg (by omega), if_neg (by omega), if_neg (by omega),
    if_pos (by omega)]

/-! ### Numbers within or behind the marker -/

/-- Behind the marker of a length is read what is read behind each of the markers that the length
can have. -/
theorem readNested_lengthMarker {base short : Nat} {wider : List (UInt8 × Nat)}
    {result : Taken MessagePack} (fits : ∃ e ∈ wider, n < 256 ^ e.2)
    (byte : base + short ≤ 256)
    (within : n < short → readMarked (readNested room) (base + n) bs = result)
    (behind : ∀ e ∈ wider, n < 256 ^ e.2 →
      readMarked (readNested room) e.1.toNat (bigEndian e.2 n ++ bs) = result) :
    readNested (room + 1) (lengthMarker base short wider n ++ bs) = result := by
  obtain ⟨isShort, bytes⟩ | ⟨e, he, hn, bytes⟩ := lengthMarker_cases base short fits
  · have marker : (UInt8.ofNat (base + n)).toNat = base + n := by
      rw [UInt8.toNat_ofNat']
      omega
    rw [bytes, List.singleton_append, readNested, marker, within isShort]
  · rw [bytes, List.cons_append, readNested, behind e he hn]

theorem readNested_unsigned (h : n < 2 ^ (64 : Nat)) :
    readNested (room + 1) (unsignedBytes n ++ bs) = some (.unsigned n, bs) := by
  refine readNested_lengthMarker bs ⟨(0xcf, 8), by simp, by simpa using h⟩ (by decide)
    (fun short => ?_) fun e he hn => ?_
  · rw [Nat.zero_add]
    exact readMarked_unsigned _ bs short
  · simp only [List.mem_cons, List.not_mem_nil, or_false] at he
    rcases he with rfl | rfl | rfl | rfl <;>
    · exact congrArg (build .unsigned) (takeNumber_append hn)

theorem readNested_text {utf8 : List UInt8} (h : utf8.length < 2 ^ (32 : Nat)) :
    readNested (room + 1) (lengthMarker 0xa0 32 [(0xd9, 1), (0xda, 2), (0xdb, 4)] utf8.length ++
      (utf8 ++ bs)) = some (.text utf8, bs) := by
  refine readNested_lengthMarker _ ⟨(0xdb, 4), by simp, by simpa using h⟩ (by decide)
    (fun short => ?_) fun e he hn => ?_
  · rw [readMarked_text _ _ short, takeExactly_append rfl]
    rfl
  · simp only [List.mem_cons, List.not_mem_nil, or_false] at he
    rcases he with rfl | rfl | rfl <;>
    · exact congrArg (build .text) (takeSized_append hn)

theorem readNested_binary {data : List UInt8} (h : data.length < 2 ^ (32 : Nat)) :
    readNested (room + 1) (lengthMarker 0 0 [(0xc4, 1), (0xc5, 2), (0xc6, 4)] data.length ++
      (data ++ bs)) = some (.binary data, bs) := by
  refine readNested_lengthMarker _ ⟨(0xc6, 4), by simp, by simpa using h⟩ (by decide)
    (fun short => absurd short (Nat.not_lt_zero _)) fun e he hn => ?_
  simp only [List.mem_cons, List.not_mem_nil, or_false] at he
  rcases he with rfl | rfl | rfl <;>
  · exact congrArg (build .binary) (takeSized_append hn)

/-- Behind the marker of an array come as many values as it says. -/
theorem readNested_array (h : n < 2 ^ (32 : Nat)) :
    readNested (room + 1) (lengthMarker 0x90 16 [(0xdc, 2), (0xdd, 4)] n ++ bs) =
      build .array (takeMany (readNested room) n bs) := by
  refine readNested_lengthMarker _ ⟨(0xdd, 4), by simp, by simpa using h⟩ (by decide)
    (fun short => readMarked_array _ bs short) fun e he hn => ?_
  simp only [List.mem_cons, List.not_mem_nil, or_false] at he
  rcases he with rfl | rfl <;>
  · exact congrArg (·.bind fun p => build .array (takeMany (readNested room) p.1 p.2))
      (takeNumber_append hn)

/-- Behind the marker of a map come as many entries as it says. -/
theorem readNested_map (h : n < 2 ^ (32 : Nat)) :
    readNested (room + 1) (lengthMarker 0x80 16 [(0xde, 2), (0xdf, 4)] n ++ bs) =
      build .map (takeMany (takePair (readNested room)) n bs) := by
  refine readNested_lengthMarker _ ⟨(0xdf, 4), by simp, by simpa using h⟩ (by decide)
    (fun short => readMarked_map _ bs short) fun e he hn => ?_
  simp only [List.mem_cons, List.not_mem_nil, or_false] at he
  rcases he with rfl | rfl <;>
  · exact congrArg (·.bind fun p => build .map (takeMany (takePair (readNested room)) p.1 p.2))
      (takeNumber_append hn)

theorem takeExtension_append (type : UInt8) (data : List UInt8) :
    takeExtension data.length (type :: data ++ bs) = some (.extension type data, bs) := by
  rw [takeExtension, takeExactly_append (List.length_cons)]
  rfl

theorem readNested_extension {data : List UInt8} (type : UInt8) (h : data.length < 2 ^ (32 : Nat)) :
    readNested (room + 1) (extensionMarker data.length ++ (type :: data ++ bs)) =
      some (.extension type data, bs) := by
  have whole := takeExtension_append bs type data
  -- The lengths with markers of their own come first.
  unfold extensionMarker
  split
  · rename_i length; rw [length] at whole; exact whole
  · rename_i length; rw [length] at whole; exact whole
  · rename_i length; rw [length] at whole; exact whole
  · rename_i length; rw [length] at whole; exact whole
  · rename_i length; rw [length] at whole; exact whole
  · refine readNested_lengthMarker _ ⟨(0xc9, 4), by simp, by simpa using h⟩ (by decide)
      (fun short => absurd short (Nat.not_lt_zero _)) fun e he hn => ?_
    simp only [List.mem_cons, List.not_mem_nil, or_false] at he
    rcases he with rfl | rfl | rfl <;>
    · exact (congrArg (·.bind fun p => takeExtension p.1 p.2) (takeNumber_append hn)).trans whole

/-- A negative integer is written as the last byte alone if that is a marker, else behind the
marker of a width. -/
theorem readNested_negative {n : Int} (low : -2 ^ (63 : Nat) ≤ n) (negative : n < 0) :
    readNested (room + 1) (negativeBytes n ++ bs) = some (.signed n, bs) := by
  have behind (marker : UInt8) (width : Nat) (low : -(256 : Int) ^ width ≤ 2 * n)
      (hmarker : readMarked (readNested room) marker.toNat = fun bs =>
        build (.signed ∘ ofTwosComplement) (takeExactly width bs)) :
      readNested (room + 1) (marker :: bigEndian width (n + 256 ^ width).toNat ++ bs) =
        some (.signed n, bs) := by
    rw [List.cons_append, readNested, hmarker]
    simp only
    rw [takeExactly_append (length_bigEndian _ _)]
    simp [build, ofTwosComplement_bigEndian low negative]
  rw [negativeBytes]
  simp only
  split
  · rename_i short
    have byte : bigEndian 1 (n + 256 ^ (1 : Nat)).toNat = [UInt8.ofNat (n + 256).toNat] := by
      simp [bigEndian]
    have marker : (UInt8.ofNat (n + 256).toNat).toNat = (n + 256).toNat := by
      rw [UInt8.toNat_ofNat']
      omega
    have same : ((n + 256).toNat : Int) - 0x100 = n := by omega
    rw [byte, List.singleton_append, readNested, marker, readMarked_signed _ bs (by omega), same]
  · split
    · exact behind 0xd0 1 (by omega) rfl
    · split
      · exact behind 0xd1 2 (by omega) rfl
      · split
        · exact behind 0xd2 4 (by omega) rfl
        · exact behind 0xd3 8 (by omega) rfl

end Markers

/-! ### What the format can hold -/

mutual

/-- Whether the format can hold a value: a length takes 32 bits, an integer 64. -/
def fits : MessagePack → Bool
  | .unsigned n => n < 2 ^ (64 : Nat)
  | .signed n => -2 ^ (63 : Nat) ≤ n && n < 2 ^ (64 : Nat)
  | .text utf8 => utf8.length < 2 ^ (32 : Nat)
  | .binary data => data.length < 2 ^ (32 : Nat)
  | .array items => items.length < 2 ^ (32 : Nat) && fitsAll items
  | .map entries => entries.length < 2 ^ (32 : Nat) && fitsEntries entries
  | .extension _ data => data.length < 2 ^ (32 : Nat)
  | _ => true

/-- Whether the format can hold values. -/
def fitsAll : List MessagePack → Bool
  | [] => true
  | v :: vs => v.fits && fitsAll vs

/-- Whether the format can hold the names and values of entries. -/
def fitsEntries : List (MessagePack × MessagePack) → Bool
  | [] => true
  | (k, v) :: es => k.fits && v.fits && fitsEntries es

end

theorem fitsAll_iff {vs : List MessagePack} : fitsAll vs = true ↔ ∀ v ∈ vs, v.fits = true := by
  induction vs with
  | nil => simp [fitsAll]
  | cons v vs ih => simp [fitsAll, ih]

theorem fitsEntries_iff {es : List (MessagePack × MessagePack)} :
    fitsEntries es = true ↔ ∀ e ∈ es, e.1.fits = true ∧ e.2.fits = true := by
  induction es with
  | nil => simp [fitsEntries]
  | cons e es ih => simp [fitsEntries, ih]

mutual

/-- The value as which a value is read again. -/
def asRead : MessagePack → MessagePack
  | .signed n => if 0 ≤ n then .unsigned n.toNat else .signed n
  | .array items => .array (asReadAll items)
  | .map entries => .map (asReadEntries entries)
  | v => v

/-- The values as which values are read again. -/
def asReadAll : List MessagePack → List MessagePack
  | [] => []
  | v :: vs => v.asRead :: asReadAll vs

/-- The entries as which entries are read again. -/
def asReadEntries : List (MessagePack × MessagePack) → List (MessagePack × MessagePack)
  | [] => []
  | (k, v) :: es => (k.asRead, v.asRead) :: asReadEntries es

end

/-! ### Reading what was written -/

mutual

/-- By induction on the value: what is inside an array or map has one level less of room, and nests
one level less. -/
theorem readNested_bytes : (v : MessagePack) → (room : Nat) → (rest : List UInt8) →
    v.fits = true → v.depth < room → readNested room (v.bytes ++ rest) = some (v.asRead, rest)
  | _, 0, _, _, deep => absurd deep (Nat.not_lt_zero _)
  | .nil, _ + 1, _, _, _ => rfl
  | .bool false, _ + 1, _, _, _ => rfl
  | .bool true, _ + 1, _, _, _ => rfl
  | .unsigned n, _ + 1, rest, fits, _ =>
    readNested_unsigned rest (by simpa [MessagePack.fits] using fits)
  | .signed n, _ + 1, rest, fits, _ => by
    simp only [MessagePack.fits, Bool.and_eq_true, decide_eq_true_eq] at fits
    rw [bytes, asRead]
    -- Writing and reading again ask the same about the sign.
    split
    · exact readNested_unsigned rest (by omega)
    · exact readNested_negative rest fits.1 (by omega)
  | .float32 bits, room + 1, rest, _, _ => by
    have number : takeNumber 4 (bigEndian 4 bits.toNat ++ rest) = some (bits.toNat, rest) :=
      takeNumber_append bits.toNat_lt
    refine (congrArg (build fun n => .float32 (UInt32.ofNat n)) number).trans ?_
    simp [build, asRead]
  | .float64 x, room + 1, rest, _, _ => by
    have number : takeNumber 8 (bigEndian 8 x.bits.toNat ++ rest) = some (x.bits.toNat, rest) :=
      takeNumber_append x.bits.toNat_lt
    refine (congrArg (build fun n => .float64 ⟨UInt64.ofNat n⟩) number).trans ?_
    simp [build, asRead]
  | .text utf8, _ + 1, rest, fits, _ => by
    rw [bytes, List.append_assoc]
    exact readNested_text rest (by simpa [MessagePack.fits] using fits)
  | .binary data, _ + 1, rest, fits, _ => by
    rw [bytes, List.append_assoc]
    exact readNested_binary rest (by simpa [MessagePack.fits] using fits)
  | .extension type data, _ + 1, rest, fits, _ => by
    rw [bytes, List.append_assoc]
    exact readNested_extension rest type (by simpa [MessagePack.fits] using fits)
  | .array items, room + 1, rest, fits, deep => by
    simp only [MessagePack.fits, Bool.and_eq_true, decide_eq_true_eq] at fits
    have all := takeMany_bytesOfAll items room rest fits.2 (Nat.lt_of_succ_lt_succ deep)
    rw [bytes, List.append_assoc, readNested_array _ fits.1, all, asRead]
    rfl
  | .map entries, room + 1, rest, fits, deep => by
    simp only [MessagePack.fits, Bool.and_eq_true, decide_eq_true_eq] at fits
    have all := takeMany_bytesOfEntries entries room rest fits.2 (Nat.lt_of_succ_lt_succ deep)
    rw [bytes, List.append_assoc, readNested_map _ fits.1, all, asRead]
    rfl

theorem takeMany_bytesOfAll : (vs : List MessagePack) → (room : Nat) → (rest : List UInt8) →
    fitsAll vs = true → depthOfAll vs < room →
    takeMany (readNested room) vs.length (bytesOfAll vs ++ rest) = some (asReadAll vs, rest)
  | [], _, _, _, _ => rfl
  | v :: vs, room, rest, fits, deep => by
    simp only [fitsAll, Bool.and_eq_true] at fits
    simp only [depthOfAll] at deep
    have first := readNested_bytes v room (bytesOfAll vs ++ rest) fits.1 (by omega)
    have others := takeMany_bytesOfAll vs room rest fits.2 (by omega)
    rw [bytesOfAll, List.append_assoc]
    exact takeMany_of_some first others

theorem takeMany_bytesOfEntries : (es : List (MessagePack × MessagePack)) → (room : Nat) →
    (rest : List UInt8) → fitsEntries es = true → depthOfEntries es < room →
    takeMany (takePair (readNested room)) es.length (bytesOfEntries es ++ rest) =
      some (asReadEntries es, rest)
  | [], _, _, _, _ => rfl
  | (k, v) :: es, room, rest, fits, deep => by
    simp only [fitsEntries, Bool.and_eq_true] at fits
    simp only [depthOfEntries] at deep
    have name := readNested_bytes k room (v.bytes ++ (bytesOfEntries es ++ rest)) fits.1.1
      (by omega)
    have value := readNested_bytes v room (bytesOfEntries es ++ rest) fits.1.2 (by omega)
    have others := takeMany_bytesOfEntries es room rest fits.2 (by omega)
    rw [bytesOfEntries, List.append_assoc, List.append_assoc]
    exact takeMany_of_some (takePair_of_some name value) others

end

/-! ### Levels and bytes -/

theorem length_lengthMarker_pos (base short : Nat) {wider : List (UInt8 × Nat)} {n : Nat}
    (fits : ∃ e ∈ wider, n < 256 ^ e.2) : 0 < (lengthMarker base short wider n).length := by
  obtain ⟨-, bytes⟩ | ⟨e, -, -, bytes⟩ := lengthMarker_cases base short fits
  · simp [bytes]
  · simp [bytes]

mutual

/-- Each level takes a byte at least, its marker. -/
theorem depth_le_length_bytes : (v : MessagePack) → v.fits = true → v.depth ≤ v.bytes.length
  | .array items, fits => by
    simp only [MessagePack.fits, Bool.and_eq_true, decide_eq_true_eq] at fits
    have marker : 0 < (lengthMarker 0x90 16 [(0xdc, 2), (0xdd, 4)] items.length).length :=
      length_lengthMarker_pos _ _ ⟨(0xdd, 4), by simp, by simpa using fits.1⟩
    have items := depthOfAll_le_length_bytesOfAll items fits.2
    simp only [depth, bytes, List.length_append]
    omega
  | .map entries, fits => by
    simp only [MessagePack.fits, Bool.and_eq_true, decide_eq_true_eq] at fits
    have marker : 0 < (lengthMarker 0x80 16 [(0xde, 2), (0xdf, 4)] entries.length).length :=
      length_lengthMarker_pos _ _ ⟨(0xdf, 4), by simp, by simpa using fits.1⟩
    have entries := depthOfEntries_le_length_bytesOfEntries entries fits.2
    simp only [depth, bytes, List.length_append]
    omega
  | .extension .., _ => by
    simp only [depth, bytes, List.length_append, List.length_cons]
    omega
  | .nil, _ => Nat.zero_le _
  | .bool _, _ => Nat.zero_le _
  | .unsigned _, _ => Nat.zero_le _
  | .signed _, _ => Nat.zero_le _
  | .float32 _, _ => Nat.zero_le _
  | .float64 _, _ => Nat.zero_le _
  | .text _, _ => Nat.zero_le _
  | .binary _, _ => Nat.zero_le _

theorem depthOfAll_le_length_bytesOfAll : (vs : List MessagePack) → fitsAll vs = true →
    depthOfAll vs ≤ (bytesOfAll vs).length
  | [], _ => Nat.le_refl _
  | v :: vs, fits => by
    simp only [fitsAll, Bool.and_eq_true] at fits
    have first := depth_le_length_bytes v fits.1
    have others := depthOfAll_le_length_bytesOfAll vs fits.2
    simp only [depthOfAll, bytesOfAll, List.length_append]
    omega

theorem depthOfEntries_le_length_bytesOfEntries : (es : List (MessagePack × MessagePack)) →
    fitsEntries es = true → depthOfEntries es ≤ (bytesOfEntries es).length
  | [], _ => Nat.le_refl _
  | (k, v) :: es, fits => by
    simp only [fitsEntries, Bool.and_eq_true] at fits
    have name := depth_le_length_bytes k fits.1.1
    have value := depth_le_length_bytes v fits.1.2
    have others := depthOfEntries_le_length_bytesOfEntries es fits.2
    simp only [depthOfEntries, bytesOfEntries, List.length_append]
    omega

end

/-- What is written of a value is read again, whatever follows it. -/
theorem read_bytes {v : MessagePack} (fits : v.fits = true) (rest : List UInt8) :
    read (v.bytes ++ rest) = some (v.asRead, rest) := by
  have deep := depth_le_length_bytes v fits
  refine readNested_bytes v _ rest fits ?_
  rw [List.length_append]
  omega

end MessagePack

end ApiCatalog
