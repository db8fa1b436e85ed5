import QuditCircuits.DenseMatrix.Basic

/-!
# Square roots of 2×2 matrices

A 2×2 matrix `M` with determinant `δ` and trace `τ` satisfies `M² + δ = τ M`, so
`(M + s) / t` squares to `M` whenever `s² = δ` and `t² = τ + 2 s`. Both signs of
`s` are tried and the one with the larger `|t|` is used: for a unitary matrix this
`t` does not vanish.
-/

namespace QuditCircuits.DenseMatrix

variable {R : Type} [Scalar R]

/-- Determinant of the 2×2 corner of a matrix. -/
def cornerDet (matrix : DenseMatrix (Amplitude R)) : Amplitude R :=
  matrix.entry 0 0 * matrix.entry 1 1 - matrix.entry 0 1 * matrix.entry 1 0

/-- Trace of the 2×2 corner of a matrix. -/
def cornerTrace (matrix : DenseMatrix (Amplitude R)) : Amplitude R :=
  matrix.entry 0 0 + matrix.entry 1 1

/-- The shift `s` and divisor `t` of the square root, for a given choice of
complex roots. Of two equal divisors the one for `-√δ` is used. -/
def rootTerms (root : Amplitude R → Amplitude R) (matrix : DenseMatrix (Amplitude R)) :
    Amplitude R × Amplitude R :=
  let shift := root matrix.cornerDet
  let divisor := root (matrix.cornerTrace + shift.scale Scalar.two)
  let opposite := root (matrix.cornerTrace + (-shift).scale Scalar.two)
  if Scalar.totalLe divisor.norm opposite.norm then (-shift, opposite) else (shift, divisor)

/-- The square root of the 2×2 corner for a given choice of complex roots. Entries
outside the corner take part in the division only. -/
def squareRootWith (root : Amplitude R → Amplitude R) (matrix : DenseMatrix (Amplitude R)) :
    DenseMatrix (Amplitude R) :=
  let (shift, divisor) := rootTerms root matrix
  ofFn matrix.rows matrix.cols fun row col =>
    (if row = col ∧ row < 2 then matrix.entry row col + shift else matrix.entry row col) / divisor

/-- The square root of the 2×2 corner with principal complex roots. -/
def squareRoot (matrix : DenseMatrix (Amplitude R)) : DenseMatrix (Amplitude R) :=
  squareRootWith Amplitude.sqrt matrix

/-- Checks that a matrix has a 2×2 corner. -/
def requireCorner {α : Type} (matrix : DenseMatrix α) : Except Fault Unit :=
  if 2 ≤ matrix.rows ∧ 2 ≤ matrix.cols then .ok () else .error .indexOutOfRange

end QuditCircuits.DenseMatrix
