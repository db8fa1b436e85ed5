/-!
# Ranges of characters

Large sets of characters are kept as lists of closed ranges of code points.
The ranges of a list ascend and do not touch, which makes a set's list unique and
lets the search stop early (`inRanges`).
-/

namespace QuditCircuits.Text

/-- Whether a code point lies in one of the ranges. Since the ranges ascend, the
search ends at the first that begins behind the code point. -/
def inRanges : List (Nat × Nat) → Nat → Bool
  | [], _ => false
  | (first, last) :: later, code =>
      decide (first ≤ code) && (decide (code ≤ last) || inRanges later code)

end QuditCircuits.Text
