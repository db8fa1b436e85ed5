import QuditCircuits.DenseMatrix.Basic

/-!
# Comparing matrices numerically

Two matrices are close if they have one size and every entry differs by at most
a tolerance. Closeness up to a global phase first turns the left matrix by the
phase between the entries at its largest position.
-/

namespace QuditCircuits

namespace Scalar

variable {R : Type} [Scalar R]

/-- The last of the items with the largest measure in the total order. -/
def lastLargest {α : Type} (measure : α → R) : List α → Option α
  | [] => none
  | item :: items => some (items.foldl
      (fun best next => if totalLe (measure best) (measure next) then next else best) item)

end Scalar

namespace DenseMatrix

variable {R : Type} [Scalar R]

/-- Whether two matrices have the same number of rows and of columns. -/
def sameSize {α : Type} (first second : DenseMatrix α) : Bool :=
  first.rows == second.rows && first.cols == second.cols

/-- Whether every entry differs by at most the tolerance. -/
def close (tolerance : R) (first second : DenseMatrix (Amplitude R)) : Bool :=
  first.sameSize second &&
    (first.entries.toList.zip second.entries.toList).all fun pair =>
      Scalar.le (pair.1 - pair.2).norm tolerance

/-- Whether the matrices are close after a common phase is taken out. The phase is
read at the last position where the first matrix is largest; it has none if both
entries there are within the tolerance of zero. -/
def closeUpToPhase (tolerance : R) (first second : DenseMatrix (Amplitude R)) : Bool :=
  first.sameSize second &&
    match Scalar.lastLargest (fun pair => pair.1.norm)
        (first.entries.toList.zip second.entries.toList) with
    | none => true
    | some (largest, other) =>
        if Scalar.le largest.norm tolerance then
          Scalar.le other.norm tolerance && close tolerance first second
        else if Scalar.le other.norm tolerance then false
        else
          let ratio := other / largest
          let phase := ratio.unscale ratio.norm
          close tolerance (first.map (· * phase)) second

/-- Whether `adjoint m · m` is close to the identity of the given size. -/
def isUnitary (tolerance : R) (size : Nat) (matrix : DenseMatrix (Amplitude R)) : Bool :=
  close tolerance (mul matrix.adjoint matrix) (identity size)

end DenseMatrix

end QuditCircuits
