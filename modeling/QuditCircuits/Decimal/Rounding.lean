/-!
# Rounding to decimal grids

Two ways of replacing the positive number `significand · 2 ^ exponent` by a
multiple of a power of ten: the nearest multiple of a given power
(`roundToPlaces`), and the coarsest multiple that is still closer to the number
than to its floating-point neighbours (`shortest`).
-/

namespace QuditCircuits.Decimal

/-- The number `coefficient · 10 ^ exponent`. -/
structure DecimalNumber where
  coefficient : Nat
  exponent : Int
deriving DecidableEq, Repr

/-- The integer nearest to a quotient; a half goes to the even neighbour. -/
def roundQuotient (numerator denominator : Nat) : Nat :=
  let floor := numerator / denominator
  let rest := 2 * (numerator % denominator)
  if rest < denominator then floor
  else if denominator < rest then floor + 1
  else if floor % 2 = 0 then floor else floor + 1

/-- The coefficient of the multiple of `10 ^ (-places)` nearest to
`significand · 2 ^ exponent`. -/
def roundToPlaces (significand : Nat) (exponent : Int) (places : Nat) : Nat :=
  roundQuotient (significand * Nat.pow 10 places * Nat.pow 2 exponent.toNat)
    (Nat.pow 2 (-exponent).toNat)

/-- Tries the multiples of `10 ^ grid` next to `value · 2 ^ exponent` against the
interval from `lower` to `upper`, in the same unit, then ever finer grids. The
ends belong to the interval if `closed` holds. Of two hits the nearer wins, and
the larger wins a tie. -/
def search (closed : Bool) (lower value upper : Nat) (exponent : Int) :
    Nat → Int → DecimalNumber
  | 0, grid => ⟨0, grid⟩
  | steps + 1, grid =>
      let unit := Nat.pow 2 exponent.toNat * Nat.pow 10 (-grid).toNat
      let step := Nat.pow 10 grid.toNat * Nat.pow 2 (-exponent).toNat
      let below := value * unit / step
      let above := below + 1
      let belowFits :=
        if closed then decide (lower * unit ≤ below * step)
        else decide (lower * unit < below * step)
      let aboveFits :=
        if closed then decide (above * step ≤ upper * unit)
        else decide (above * step < upper * unit)
      let toBelow := value * unit - below * step
      let toAbove := above * step - value * unit
      if belowFits && aboveFits then
        if toBelow < toAbove then ⟨below, grid⟩ else ⟨above, grid⟩
      else if belowFits then ⟨below, grid⟩
      else if aboveFits then ⟨above, grid⟩
      else search closed lower value upper exponent steps (grid - 1)

/-- A power of ten that exceeds `significand · 2 ^ exponent`, by at most a few
orders of magnitude. -/
def magnitudeBound (significand : Nat) (exponent : Int) : Int :=
  ((significand.log2 : Int) + 1 + exponent) * 30103 / 100000 + 1

/-- The decimal with the fewest digits that reads back as the floating-point
number `significand · 2 ^ exponent`; of those the nearest, and the larger of two
that are equally near. The interval of numbers that read back reaches half-way to
both neighbours, and its ends belong to it if the significand is even. -/
def shortest (significand : Nat) (exponent : Int) (tight : Bool) : DecimalNumber :=
  let value := 4 * significand
  let lower := if tight then value - 1 else value - 2
  search (significand % 2 == 0) lower value (value + 2) (exponent - 2) 25
    (magnitudeBound significand exponent)

end QuditCircuits.Decimal
