import ApiCatalog.Number.Binary64

/-!
# The shortest decimal text of a floating-point number

A finite number is written with the fewest decimal digits that read back as the same number;
of two such candidates the nearer one is taken, and the larger one if both are equally near.
The text is positional, whatever the exponent, and has a point only if digits follow it.

Every finite magnitude times 10 ^ 1074 is a natural number. The candidates are found on
that scale: cutting the last digits off gives the lower neighbour with so many digits, one
more in the last place the upper one.
-/

namespace ApiCatalog.Binary64

open scoped CorePowers

/-- The places behind the point that every finite magnitude can be written with. -/
def places : Nat := 1074

/-- A finite magnitude times 10 ^ 1074. -/
def scaled (magnitude : Nat) : Nat := units magnitude * 5 ^ places

/-- Whether a value on the scale of 10 ^ 1074 rounds to the magnitude. -/
def readsBack (magnitude value : Nat) : Bool :=
  roundRatio value (10 ^ places) == magnitude

/-- Of the neighbours of a value that have a property, the nearer one. -/
def nearest? (p : Nat → Bool) (exact lower upper : Nat) : Option Nat :=
  match p lower, p upper with
  | true, true => some (if exact - lower < upper - exact then lower else upper)
  | true, false => some lower
  | false, true => some upper
  | false, false => none

/-- The nearest value that has `n` digits at most and reads back, if any. -/
def candidate? (magnitude n : Nat) : Option Nat :=
  let exact := scaled magnitude
  let unit := 10 ^ ((Integer.digits exact).length - n)
  let lower := exact / unit * unit
  nearest? (readsBack magnitude) exact lower (lower + unit)

/-- The value with the fewest digits that reads back. Seventeen digits always suffice. -/
def shortest (magnitude : Nat) : Nat :=
  ((List.range' 1 17).findSome? (candidate? magnitude)).getD (scaled magnitude)

/-- Drops the zeros at the end. -/
def trimZeros (ds : List Char) : List Char :=
  (ds.reverse.dropWhile (· == '0')).reverse

/-- The digits before and behind the point of a value on the scale of 10 ^ 1074. -/
def split (value : Nat) : List Char × List Char :=
  let fraction := Integer.digits (value % 10 ^ places)
  (Integer.digits (value / 10 ^ places),
    trimZeros (List.replicate (places - fraction.length) '0' ++ fraction))

/-- Digits with a point between them, if any stand behind it. -/
def pointed : List Char × List Char → List Char
  | (whole, []) => whole
  | (whole, fraction) => whole ++ '.' :: fraction

/-- The text of a finite magnitude. -/
def magnitudeText (magnitude : Nat) : List Char := pointed (split (shortest magnitude))

/-- A text behind the sign of a number. -/
def signed (negative : Bool) (unsigned : List Char) : List Char :=
  if negative then '-' :: unsigned else unsigned

/-- The text of a number. What is no number has no sign. -/
def text (x : Binary64) : List Char :=
  if infinity < x.magnitude then "NaN".toList
  else signed x.isNegative (if x.isFinite then magnitudeText x.magnitude else "inf".toList)

end ApiCatalog.Binary64
