import ApiCatalog.Form.Printer

/-!
# Decimal text reads back

The text of a finite number is one that rounds to it: such a text is looked for, and where none
is short enough the exact value is written, which needs no rounding. Rounding depends on the
quotient alone, so the zeros that are cut off behind the point, or put there to make a literal,
change nothing.

Main statement: `Binary64.exists_literal`, a finite number is what its literal reads as.
-/

namespace ApiCatalog

open scoped CorePowers

namespace Binary64

/-! ### Rounding -/

theorem roundRatio_eq (num den : Nat) :
    roundRatio num den =
      min ((Nat.log2 (num * 2 ^ places / den) - 52) * 2 ^ (52 : Nat) +
        roundDiv (num * 2 ^ places) (den * 2 ^ (Nat.log2 (num * 2 ^ places / den) - 52)))
        infinity := by
  simp only [roundRatio, places]

theorem roundDiv_mul_right (num den : Nat) {k : Nat} (hk : 0 < k) :
    roundDiv (num * k) (den * k) = roundDiv num den := by
  simp only [roundDiv, Nat.mul_div_mul_right num den hk, Nat.mul_mod_mul_right]
  have below : 2 * (num % den * k) < den * k ↔ 2 * (num % den) < den := by
    rw [← Nat.mul_assoc]
    exact Nat.mul_lt_mul_right hk
  have above : den * k < 2 * (num % den * k) ↔ den < 2 * (num % den) := by
    rw [← Nat.mul_assoc]
    exact Nat.mul_lt_mul_right hk
  simp only [below, above]

/-- Rounding depends on the quotient alone. -/
theorem roundRatio_mul_right (num den : Nat) {k : Nat} (hk : 0 < k) :
    roundRatio (num * k) (den * k) = roundRatio num den := by
  have scaled (x : Nat) : num * k * x = num * x * k := Nat.mul_right_comm num k x
  simp only [roundRatio_eq, scaled, Nat.mul_div_mul_right _ den hk, Nat.mul_right_comm den k,
    roundDiv_mul_right _ _ hk]

theorem units_of_lt {m : Nat} (h : m < 2 ^ (52 : Nat)) : units m = m := by
  have hzero : m / 2 ^ (52 : Nat) = 0 := Nat.div_eq_of_lt h
  rw [units, if_pos hzero, Nat.mod_eq_of_lt h]

/-- Above the least exponent the fraction has 53 bits, and the exponent says how far they are
shifted. -/
theorem units_of_le {m : Nat} (h : 2 ^ (52 : Nat) ≤ m) :
    units m = (2 ^ (52 : Nat) + m % 2 ^ (52 : Nat)) * 2 ^ (m / 2 ^ (52 : Nat) - 1) := by
  have hpos : 0 < m / 2 ^ (52 : Nat) := Nat.div_pos h (Nat.two_pow_pos 52)
  rw [units, if_neg (Nat.ne_of_gt hpos)]

theorem log2_units_of_le {m : Nat} (h : 2 ^ (52 : Nat) ≤ m) :
    Nat.log2 (units m) - 52 = m / 2 ^ (52 : Nat) - 1 := by
  have hfraction := Nat.mod_lt m (Nat.two_pow_pos 52)
  have hshift := Nat.two_pow_pos (m / 2 ^ (52 : Nat) - 1)
  have hlog : Nat.log2 (units m) = 52 + (m / 2 ^ (52 : Nat) - 1) := by
    rw [units_of_le h]
    refine (Nat.log2_eq_iff (Nat.ne_of_gt (Nat.mul_pos (by omega) hshift))).2 ⟨?_, ?_⟩
    · rw [Nat.pow_add]
      exact Nat.mul_le_mul_right _ (by omega)
    · rw [Nat.add_right_comm, Nat.pow_add]
      exact Nat.mul_lt_mul_of_pos_right (by omega) hshift
  omega

/-- The units of a magnitude, rounded where its exponent says, are the magnitude again. -/
theorem round_units (m : Nat) :
    (Nat.log2 (units m) - 52) * 2 ^ (52 : Nat) +
        roundDiv (units m) (2 ^ (Nat.log2 (units m) - 52)) =
      m := by
  have hround {n d : Nat} (hd : 0 < d) : roundDiv (n * d) d = n := by
    simp [roundDiv, Nat.mul_div_cancel n hd, hd]
  by_cases h : m < 2 ^ (52 : Nat)
  · -- a subnormal number: one step of the fraction is one unit, and nothing is rounded
    have hlog : Nat.log2 m - 52 = 0 := by
      by_cases hzero : m = 0
      · rw [hzero]
        rfl
      · have := (Nat.log2_lt hzero).2 h
        omega
    have := hround (n := m) (d := 1) (by decide)
    rw [units_of_lt h, hlog]
    simpa using this
  · -- the leading bit that the fraction leaves out is the one that the exponent counts
    have h : 2 ^ (52 : Nat) ≤ m := Nat.not_lt.1 h
    have hpos : 0 < m / 2 ^ (52 : Nat) := Nat.div_pos h (Nat.two_pow_pos 52)
    have hsplit := Nat.div_add_mod m (2 ^ (52 : Nat))
    rw [log2_units_of_le h, units_of_le h, hround (Nat.two_pow_pos _)]
    omega

/-- A whole number of units rounds to the magnitude that is worth them. -/
theorem roundRatio_units {m : Nat} (h : m < infinity) :
    roundRatio (units m) (2 ^ places) = m := by
  have pos : 0 < 2 ^ places := Nat.two_pow_pos places
  rw [roundRatio_eq]
  -- the power is far too large to be evaluated
  generalize 2 ^ places = k at pos
  rw [Nat.mul_div_cancel _ pos, Nat.mul_comm k, roundDiv_mul_right _ _ pos, round_units]
  exact Nat.min_eq_left (Nat.le_of_lt h)

/-- The exact value rounds to the magnitude. -/
theorem roundRatio_scaled {m : Nat} (h : m < infinity) :
    roundRatio (scaled m) (10 ^ places) = m := by
  have ten (n : Nat) : 10 ^ n = 2 ^ n * 5 ^ n := Nat.mul_pow 2 5 n
  have five : 0 < 5 ^ places := Nat.pow_pos (by decide)
  rw [scaled, ten, roundRatio_mul_right _ _ five, roundRatio_units h]

/-! ### The shortest text -/

theorem eq_true_of_nearest? {p : Nat → Bool} {exact lower upper v : Nat}
    (h : nearest? p exact lower upper = some v) : p v = true := by
  unfold nearest? at h
  cases hl : p lower <;> cases hu : p upper <;> simp only [hl, hu] at h
  · cases h
  · exact Option.some.inj h ▸ hu
  · exact Option.some.inj h ▸ hl
  · rw [Option.some.injEq] at h
    split at h
    · exact h ▸ hl
    · exact h ▸ hu

theorem readsBack_of_candidate? {m n v : Nat} (h : candidate? m n = some v) :
    readsBack m v = true := by
  unfold candidate? at h
  exact eq_true_of_nearest? (p := readsBack m) h

/-- The value that is written rounds to the magnitude. -/
theorem roundRatio_shortest {m : Nat} (h : m < infinity) :
    roundRatio (shortest m) (10 ^ places) = m := by
  rw [shortest]
  cases found : (List.range' 1 17).findSome? (candidate? m) with
  | none =>
    -- no text of up to 17 digits reads back, and the exact value is written
    exact roundRatio_scaled h
  | some v =>
    obtain ⟨n, -, hn⟩ := List.exists_of_findSome?_eq_some found
    exact eq_of_beq (readsBack_of_candidate? hn)

/-! ### Digits before and behind the point -/

theorem ofDigits_append (ds es : List Char) :
    Integer.ofDigits (ds ++ es) = 10 ^ es.length * Integer.ofDigits ds + Integer.ofDigits es := by
  rw [Integer.ofDigits, Nat.ofDigitChars_append, Nat.ofDigitChars_eq_ofDigitChars_zero]
  rfl

theorem ofDigits_replicate_zero (n : Nat) : Integer.ofDigits (List.replicate n '0') = 0 := by
  rw [Integer.ofDigits, Nat.ofDigitChars_replicate_zero, Nat.mul_zero]

/-- Zeros at the end do not change the magnitude that digits read as. -/
theorem roundRatio_zeros (whole fraction : List Char) (n : Nat) :
    roundRatio (Integer.ofDigits (whole ++ (fraction ++ List.replicate n '0')))
        (10 ^ (fraction ++ List.replicate n '0').length) =
      roundRatio (Integer.ofDigits (whole ++ fraction)) (10 ^ fraction.length) := by
  rw [← List.append_assoc, ofDigits_append, ofDigits_replicate_zero, List.length_append,
    List.length_replicate, Nat.add_zero, Nat.mul_comm, Nat.pow_add,
    roundRatio_mul_right _ _ (Nat.pow_pos (by decide))]

theorem exists_trimZeros (ds : List Char) :
    ∃ n, ds = trimZeros ds ++ List.replicate n '0' := by
  have zeros := List.takeWhile_append_dropWhile (p := (· == '0')) (l := ds.reverse)
  have same : ds.reverse.takeWhile (· == '0') =
      List.replicate (ds.reverse.takeWhile (· == '0')).length '0' := by
    refine List.eq_replicate_iff.2 ⟨rfl, fun c hc => ?_⟩
    exact eq_of_beq (List.all_eq_true.1 List.all_takeWhile c hc)
  refine ⟨(ds.reverse.takeWhile (· == '0')).length, ?_⟩
  rw [trimZeros, ← List.reverse_replicate, ← List.reverse_append, ← same, zeros,
    List.reverse_reverse]

/-- The digits of a value read as what the value rounds to. -/
theorem roundRatio_split (v : Nat) :
    roundRatio (Integer.ofDigits ((split v).1 ++ (split v).2)) (10 ^ (split v).2.length) =
      roundRatio v (10 ^ places) := by
  have hpos : 0 < 10 ^ places := Nat.pow_pos (by decide)
  have hlength : (Integer.digits (v % 10 ^ places)).length ≤ places :=
    (Nat.length_toDigits_le_iff (by decide) (by decide)).2 (Nat.mod_lt _ hpos)
  obtain ⟨n, trimmed⟩ := exists_trimZeros
    (List.replicate (places - (Integer.digits (v % 10 ^ places)).length) '0' ++
      Integer.digits (v % 10 ^ places))
  have padded : (List.replicate (places - (Integer.digits (v % 10 ^ places)).length) '0' ++
      Integer.digits (v % 10 ^ places)).length = places := by
    rw [List.length_append, List.length_replicate]
    omega
  have value : Integer.ofDigits (Integer.digits (v / 10 ^ places) ++
      (List.replicate (places - (Integer.digits (v % 10 ^ places)).length) '0' ++
        Integer.digits (v % 10 ^ places))) = v := by
    rw [ofDigits_append, padded, ofDigits_append, ofDigits_replicate_zero,
      Integer.ofDigits_digits, Integer.ofDigits_digits, Nat.mul_zero, Nat.zero_add,
      Nat.div_add_mod]
  rw [split, ← roundRatio_zeros _ _ n, ← trimmed, padded, value]

theorem split_fst_ne_nil (v : Nat) : (split v).1 ≠ [] := by
  rw [split]
  exact Nat.toDigits_ne_nil

theorem isDigit_of_mem_split {v : Nat} {c : Char} (h : c ∈ (split v).1 ++ (split v).2) :
    c.isDigit = true := by
  have digits {n : Nat} (h : c ∈ Integer.digits n) : c.isDigit = true :=
    Nat.isDigit_of_mem_toDigits (by decide) (by decide) h
  rcases List.mem_append.1 h with h | h
  · exact digits h
  · have h := (List.dropWhile_suffix _).mem (List.mem_reverse.1 h)
    rcases List.mem_append.1 (List.mem_reverse.1 h) with h | h
    · rw [(List.mem_replicate.1 h).2]
      rfl
    · exact digits h

/-! ### Literals -/

theorem ofMagnitude_magnitude (x : Binary64) : ofMagnitude x.isNegative x.magnitude = x := by
  obtain ⟨bits⟩ := x
  have value : (if 2 ^ (63 : Nat) ≤ bits.toNat then 2 ^ (63 : Nat) + bits.toNat % 2 ^ (63 : Nat)
      else bits.toNat % 2 ^ (63 : Nat)) = bits.toNat := by
    have := bits.toNat_lt
    split <;> omega
  simp only [ofMagnitude, isNegative, magnitude, decide_eq_true_eq, value, UInt64.ofNat_toNat]

/-- Digits are written with a point and digits behind it, once these are put where there are
none. -/
theorem exists_pointed {parts : List Char × List Char} (hwhole : parts.1 ≠ [])
    (digits : ∀ c ∈ parts.1 ++ parts.2, c.isDigit = true) :
    ∃ whole fraction : List Char, whole ≠ [] ∧ fraction ≠ [] ∧
      (∀ c ∈ whole ++ fraction, c.isDigit = true) ∧
      (pointed parts = whole ++ '.' :: fraction ∨ pointed parts = whole ∧ fraction = ['0']) ∧
      roundRatio (Integer.ofDigits (whole ++ fraction)) (10 ^ fraction.length) =
        roundRatio (Integer.ofDigits (parts.1 ++ parts.2)) (10 ^ parts.2.length) := by
  obtain ⟨whole, _ | ⟨d, fraction⟩⟩ := parts
  · -- an integer, to which the literal adds a zero behind the point
    refine ⟨whole, ['0'], hwhole, by simp, fun c hc => ?_, .inr ⟨rfl, rfl⟩,
      roundRatio_zeros whole [] 1⟩
    rcases List.mem_append.1 hc with hc | hc
    · exact digits c (List.mem_append_left _ hc)
    · rw [List.mem_singleton.1 hc]
      rfl
  · exact ⟨whole, d :: fraction, hwhole, by simp, digits, .inl rfl, rfl⟩

theorem text_of_isFinite {x : Binary64} (h : x.isFinite = true) :
    x.text = signed x.isNegative (magnitudeText x.magnitude) := by
  have notNaN : ¬ infinity < x.magnitude := Nat.lt_asymm (of_decide_eq_true h)
  rw [text, if_neg notNaN, if_pos h]

theorem mem_signed {c : Char} {negative : Bool} {unsigned : List Char} :
    c ∈ signed negative unsigned ↔ negative = true ∧ c = '-' ∨ c ∈ unsigned := by
  cases negative <;> simp [signed]

theorem signed_append (negative : Bool) (cs ds : List Char) :
    signed negative (cs ++ ds) = signed negative cs ++ ds := by
  cases negative <;> rfl

/-- A finite number is what its literal reads as: a sign, digits, a point and digits. -/
theorem exists_literal {x : Binary64} (h : x.isFinite = true) :
    ∃ whole fraction : List Char, whole ≠ [] ∧ fraction ≠ [] ∧
      (∀ c ∈ whole ++ fraction, c.isDigit = true) ∧
      x.literal = signed x.isNegative (whole ++ '.' :: fraction) ∧
      read x.isNegative whole fraction = x := by
  have rounds := (roundRatio_split (shortest x.magnitude)).trans
    (roundRatio_shortest (of_decide_eq_true h))
  obtain ⟨whole, fraction, hwhole, hfraction, digits, written, value⟩ :=
    exists_pointed (split_fst_ne_nil (shortest x.magnitude)) fun _ hc => isDigit_of_mem_split hc
  refine ⟨whole, fraction, hwhole, hfraction, digits, ?_, ?_⟩
  · rw [literal, text_of_isFinite h, magnitudeText]
    generalize pointed (split (shortest x.magnitude)) = unsigned at written
    rcases written with rfl | ⟨rfl, rfl⟩
    · rw [if_pos (by simp [mem_signed])]
    · -- only then is there no point in the text yet
      have point : '.' ∉ signed x.isNegative unsigned := by
        rw [mem_signed]
        rintro (⟨-, hc⟩ | hc)
        · cases hc
        · exact absurd (digits '.' (List.mem_append_left _ hc)) (by decide)
      rw [if_neg (by simpa using point), signed_append]
  · rw [read, value, rounds, ofMagnitude_magnitude]

end Binary64

end ApiCatalog
