/-! # Ranges of code points

Character classes too large to be spelled out are given as ranges of code points.
-/

namespace VariantClasses

/-- The code points from the first to the second, both included. -/
abbrev CodeRange := Nat × Nat

/-- Whether `code` lies in one of the ranges. -/
def CodeRange.anyHolds (ranges : List CodeRange) (code : Nat) : Bool :=
  ranges.any fun range => range.1 ≤ code && code ≤ range.2

end VariantClasses
