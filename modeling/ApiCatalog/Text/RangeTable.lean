/-!
# Character classes as tables of ranges

A class of characters outside the letters and digits of ASCII is given by the closed
ranges of code points that belong to it, in ascending order.
-/

namespace ApiCatalog

/-- Closed ranges of code points, ascending and disjoint. -/
abbrev RangeTable := List (Nat × Nat)

/-- Whether the code point `n` lies in one of the ranges. -/
def RangeTable.contains (table : RangeTable) (n : Nat) : Bool :=
  table.any fun range => range.1 ≤ n && n ≤ range.2

end ApiCatalog
