/-
Module: JavaUnit.Text.Ranges
Purpose: Character classes given by ranges of code points.
Main exports: Ranges, Ranges.contains
-/

namespace JavaUnit

/-- A set of characters, as closed intervals of code points in ascending order. -/
abbrev Ranges := List (Nat × Nat)

/-- Whether some interval holds the code point of `c`. -/
def Ranges.contains (ranges : Ranges) (c : Char) : Bool :=
  ranges.any fun range => range.1 ≤ c.toNat && c.toNat ≤ range.2

end JavaUnit
