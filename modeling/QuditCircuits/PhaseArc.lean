import QuditCircuits.Scalar

/-!
# Arcs free of eigenphases

Eigenphases lie on a circle. If they all fit in a half circle, the operator moves
no state further than the sine of half their spread; the spread is what the
widest arc without an eigenphase leaves.
-/

namespace QuditCircuits.PhaseArc

variable {R : Type} [Scalar R]

/-- The differences between neighbours. -/
def gaps : List R → List R
  | first :: second :: rest => (second - first) :: gaps (second :: rest)
  | _ => []

/-- The widest arc between neighbouring angles in ascending order, on a circle of
circumference `turn`; it may run through the ends of the list. -/
def widestSortedGap (turn : R) : List R → R
  | [] => turn
  | first :: rest =>
      (gaps (first :: rest)).foldl Scalar.max (turn + first - (first :: rest).getLast (by simp))

/-- The widest arc free of angles. -/
def widestGap (turn : R) (angles : List R) : R :=
  widestSortedGap turn (angles.mergeSort Scalar.totalLe)

/-- A bound on the trace distance between the input and the output of an operator
with the given eigenphases. -/
def traceDistanceBound (angles : List R) : R :=
  if angles.isEmpty then 0
  else
    let gap := widestGap Scalar.fullTurn angles
    if Scalar.le gap Scalar.pi then 1
    else Scalar.max (Scalar.sin (Scalar.decimal 5 1 * gap)) 0

end QuditCircuits.PhaseArc
