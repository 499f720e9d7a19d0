/-!
# Decimal text of 64-bit integers

An integer is written as its digits without leading zeros, after a minus sign if it is
negative. It is read from a sign and any digits, provided the value fits in 64 bits.

Main statement: `Integer.read_digits`, reading gives back what was written.
-/

namespace ApiCatalog

namespace CorePowers

/-- Where this is open, powers of numbers are those of the core library, whatever algebra is
imported besides. -/
scoped instance (priority := high) instPow {α : Type} [NatPow α] : Pow α Nat := instPowNat

end CorePowers

open scoped CorePowers

namespace Integer

/-- Why digits denote no 64-bit integer. -/
inductive Overflow
  | tooLarge
  | tooSmall
  deriving DecidableEq, Repr

/-- The decimal digits of a number. -/
def digits (n : Nat) : List Char := Nat.toDigits 10 n

/-- The number that decimal digits denote. -/
def ofDigits (ds : List Char) : Nat := Nat.ofDigitChars 10 ds 0

theorem ofDigits_digits (n : Nat) : ofDigits (digits n) = n :=
  Nat.ofDigitChars_toDigits (by decide) (by decide)

/-- The decimal text of an integer. -/
def text (n : Int64) : List Char :=
  if n.toInt < 0 then '-' :: digits n.toInt.natAbs else digits n.toInt.natAbs

/-- The integer with the given sign and digits, if 64 bits hold it. -/
def read (negative : Bool) (ds : List Char) : Except Overflow Int64 :=
  let n : Int := if negative then -(ofDigits ds : Int) else ofDigits ds
  if n < -2 ^ (63 : Nat) then .error .tooSmall
  else if 2 ^ (63 : Nat) ≤ n then .error .tooLarge
  else .ok (Int64.ofInt n)

/-- Reading the sign and the digits of an integer gives the integer. -/
theorem read_digits (n : Int64) : read (n.toInt < 0) (digits n.toInt.natAbs) = .ok n := by
  have low := n.le_toInt
  have high := n.toInt_lt
  have value : (if decide (n.toInt < 0) = true then -(n.toInt.natAbs : Int) else n.toInt.natAbs)
      = n.toInt := by
    split <;> rename_i h <;> simp at h <;> omega
  simp only [read, ofDigits_digits, value]
  rw [if_neg (by omega), if_neg (by omega), Int64.ofInt_toInt]

end Integer

end ApiCatalog
