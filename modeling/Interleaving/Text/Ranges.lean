/-!
# Ranges of Code Points

Classes of characters are written out as lists of closed ranges of code points.
This is how a character is looked up in one.

## Main definitions

* `Text.inRanges`: A character of one of the ranges.

## Theorems

* `Text.inRanges_eq_true_iff`: The ranges are closed at both ends.
-/

namespace Interleaving

namespace Text

/-- A character of one of the ranges. -/
def inRanges (ranges : List (Nat × Nat)) (c : Char) : Bool :=
  ranges.any fun range => range.1 ≤ c.toNat && c.toNat ≤ range.2

theorem inRanges_eq_true_iff {ranges : List (Nat × Nat)} {c : Char} :
    inRanges ranges c = true ↔ ∃ range ∈ ranges, range.1 ≤ c.toNat ∧ c.toNat ≤ range.2 := by
  simp [inRanges]

end Text

end Interleaving
