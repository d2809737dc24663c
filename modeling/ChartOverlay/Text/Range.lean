import ChartOverlay.Text.Basic

/-!
# Ranges of characters

A property of characters is a list of ranges of code points, in ascending order.
-/

namespace ChartOverlay

/-- Ranges of code points, both ends included. -/
abbrev CharRanges := List (Nat × Nat)

def CharRanges.has (ranges : CharRanges) (c : CodePoint) : Bool :=
  ranges.any fun (lo, hi) => lo ≤ c.code && c.code ≤ hi

end ChartOverlay
