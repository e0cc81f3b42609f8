/-!
# Ranges of code points

A class of characters is given as a table of code point ranges, both ends included, in ascending
order.  `inRanges` looks a code point up in such a table.
-/

namespace SqlForest.Text

/-- Whether `n` lies in one of the ranges.  The ranges ascend, so the search ends at the first one
that starts above `n`. -/
def inRanges (n : Nat) : List (Nat × Nat) → Bool
  | [] => false
  | (low, high) :: rest => low ≤ n && (n ≤ high || inRanges n rest)

theorem inRanges_head {n low high : Nat} {rest : List (Nat × Nat)} (hl : low ≤ n) (hh : n ≤ high) :
    inRanges n ((low, high) :: rest) := by
  simp [inRanges, hl, hh]

theorem inRanges_tail {n low high : Nat} {rest : List (Nat × Nat)} (hl : low ≤ n)
    (h : inRanges n rest) : inRanges n ((low, high) :: rest) := by
  simp [inRanges, hl, h]

end SqlForest.Text
