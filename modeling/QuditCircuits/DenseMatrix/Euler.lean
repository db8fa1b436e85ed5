import QuditCircuits.DenseMatrix.Basic

/-!
# Euler angles of 2×2 unitary matrices

Every 2×2 unitary matrix is `exp (i α) · Rz β · Ry γ · Rz δ`, where
`Rz θ = diag (exp (-i θ / 2), exp (i θ / 2))` and `Ry θ` is the real rotation by
`θ / 2`.
-/

namespace QuditCircuits

/-- The angles of `exp (i alpha) · Rz beta · Ry gamma · Rz delta`. -/
structure EulerAngles (R : Type) where
  alpha : R
  beta : R
  gamma : R
  delta : R
deriving DecidableEq, Repr

namespace EulerAngles

variable {R : Type} [Scalar R]

/-- Absolute values up to this bound leave the phase of an entry undetermined. -/
def vanishing : R := Scalar.decimal 1 12

/-- The phase of an entry, taken as zero where it is undetermined. -/
def phaseOf (z : Amplitude R) : R :=
  if Scalar.lt vanishing z.norm then z.arg else 0

/-- The angles of the 2×2 corner of a unitary matrix. -/
def ofMatrix (matrix : DenseMatrix (Amplitude R)) : EulerAngles R :=
  let det := matrix.entry 0 0 * matrix.entry 1 1 - matrix.entry 0 1 * matrix.entry 1 0
  let alpha := det.arg / Scalar.two
  let turn := Amplitude.cis (-alpha)
  let topLeft := matrix.entry 0 0 * turn
  let bottomLeft := matrix.entry 1 0 * turn
  let bottomRight := matrix.entry 1 1 * turn
  let gamma := Scalar.two * Scalar.atan2 bottomLeft.norm topLeft.norm
  let sum := phaseOf bottomRight
  let difference := phaseOf bottomLeft
  { alpha, beta := sum + difference, gamma, delta := sum - difference }

/-- The unitary matrix with the given angles. -/
def toMatrix (angles : EulerAngles R) : DenseMatrix (Amplitude R) :=
  let half := angles.gamma / Scalar.two
  let sum := (angles.beta + angles.delta) / Scalar.two
  let difference := (angles.beta - angles.delta) / Scalar.two
  let phase := Amplitude.cis angles.alpha
  DenseMatrix.square
    ((phase * Amplitude.cis (-sum)).scale (Scalar.cos half))
    ((-phase * Amplitude.cis (-difference)).scale (Scalar.sin half))
    ((phase * Amplitude.cis difference).scale (Scalar.sin half))
    ((phase * Amplitude.cis sum).scale (Scalar.cos half))

end EulerAngles

end QuditCircuits
