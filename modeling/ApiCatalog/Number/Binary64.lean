import ApiCatalog.Number.Integer

/-!
# Binary floating-point numbers of 64 bits

A number is kept as its bits, so that two numbers are equal exactly if their bits are: a
number that is no number equals itself, and zero differs from negative zero. The finite
magnitudes are the multiples of 2 ^ -1074 with at most 53 significant bits, and every
quotient of natural numbers is rounded to one of them in exact arithmetic.
-/

namespace ApiCatalog

open scoped CorePowers

/-- A floating-point number of 64 bits: sign, eleven bits of exponent, 52 of fraction. -/
structure Binary64 where
  bits : UInt64
  deriving DecidableEq, Repr

namespace Binary64

/-- The bits without the sign. They order the magnitudes. -/
def magnitude (x : Binary64) : Nat := x.bits.toNat % 2 ^ (63 : Nat)

/-- Whether the sign bit is set. -/
def isNegative (x : Binary64) : Bool := 2 ^ (63 : Nat) ≤ x.bits.toNat

/-- The bits of the infinite magnitude. All finite magnitudes are below it. -/
def infinity : Nat := 0x7ff * 2 ^ (52 : Nat)

/-- Whether the number is neither infinite nor no number. -/
def isFinite (x : Binary64) : Bool := x.magnitude < infinity

/-- The number with the given sign and magnitude. -/
def ofMagnitude (negative : Bool) (magnitude : Nat) : Binary64 :=
  ⟨UInt64.ofNat (if negative then 2 ^ (63 : Nat) + magnitude else magnitude)⟩

/-! ### Exact values -/

/-- How many units of 2 ^ -1074 a finite magnitude is worth. -/
def units (magnitude : Nat) : Nat :=
  let exponent := magnitude / 2 ^ (52 : Nat)
  let fraction := magnitude % 2 ^ (52 : Nat)
  if exponent = 0 then fraction else (2 ^ (52 : Nat) + fraction) * 2 ^ (exponent - 1)

/-- The natural number nearest to a quotient, the even one if two are equally near. -/
def roundDiv (num den : Nat) : Nat :=
  let q := num / den
  let r := num % den
  if 2 * r < den then q
  else if den < 2 * r then q + 1
  else if q % 2 = 0 then q else q + 1

/-- The magnitude nearest to a quotient, the even one if two are equally near. Where the
exponent is the least one, the fraction is rounded to whole units; elsewhere to the 53 most
significant bits. A carry out of the fraction moves into the exponent. -/
def roundRatio (num den : Nat) : Nat :=
  let exponent := Nat.log2 (num * 2 ^ (1074 : Nat) / den) - 52
  min (exponent * 2 ^ (52 : Nat) + roundDiv (num * 2 ^ (1074 : Nat)) (den * 2 ^ exponent)) infinity

/-! ### Reading -/

/-- The number written with a sign, the digits before the point and those behind it. -/
def read (negative : Bool) (whole fraction : List Char) : Binary64 :=
  ofMagnitude negative
    (roundRatio (Integer.ofDigits (whole ++ fraction)) (10 ^ fraction.length))

end Binary64

end ApiCatalog
