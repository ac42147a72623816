/-!
# Ranges of code points

A character property is a list of closed ranges of code points in ascending order.
-/

namespace EntityQuery.Text

/-- Whether `n` lies in one of the ranges; the search stops at the first range above `n`. -/
def inRanges (n : Nat) : List (Nat × Nat) → Bool
  | [] => false
  | (lo, hi) :: rest => decide (lo ≤ n) && (decide (n ≤ hi) || inRanges n rest)

end EntityQuery.Text
