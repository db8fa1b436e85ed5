import QuditCircuits.DenseMatrix.Basic

/-!
# Reflections and plane rotations

Two kinds of unitary coordinate changes that clear entries of a matrix. A
`Reflection` turns a column into a multiple of its first unit vector; a
`PlaneRotation` acts on two neighbouring coordinates. Both are applied to rows and
to columns of a part of the matrix.
-/

namespace QuditCircuits.DenseMatrix

variable {R : Type} [Scalar R]

/-- The reflection that reverses an axis of length one and keeps everything
orthogonal to it. The axis lies in the coordinates from `first` on. -/
structure Reflection (R : Type) where
  first : Nat
  axis : Array (Amplitude R)

namespace Reflection

/-- The square of the length of a column. -/
def columnSquare (column : List (Amplitude R)) : R :=
  column.foldl (fun total entry => total + entry.normSquare) 0

/-- A column divided by its length. -/
def normalized (column : List (Amplitude R)) : List (Amplitude R) :=
  let length := Scalar.sqrt (columnSquare column)
  column.map (·.unscale length)

/-- Turns a column that begins at coordinate `first` into a multiple of its first
unit vector. Answers with that multiple, and with the reflection unless the column
is zero. The multiple has the opposite direction of the leading entry, so the axis
is found without cancellation. The squares of a very small column are rough, so the
axis is normalized once more: a reflection has to be unitary, while it need not hit
its target exactly. -/
def clearing (first : Nat) : List (Amplitude R) → Amplitude R × Option (Reflection R)
  | [] => (0, none)
  | leading :: others =>
      let square := columnSquare (leading :: others)
      let length := Scalar.sqrt square
      let opposite := leading.direction.scale length
      let factor := (square + leading.norm * length) * Scalar.two
      if Scalar.isZero factor then (opposite, none)
      else
        let axis := ((leading + opposite) :: others).map (·.unscale (Scalar.sqrt factor))
        (-opposite, some ⟨first, (normalized axis).toArray⟩)

/-- The component of the axis at a coordinate, if the axis reaches it. -/
def component? (reflection : Reflection R) (coordinate : Nat) : Option (Amplitude R) :=
  if reflection.first ≤ coordinate then reflection.axis[coordinate - reflection.first]? else none

/-- Reflects the columns from `fromCol` on and turns them by a phase. -/
def onRows (reflection : Reflection R) (phase : Amplitude R) (fromCol : Nat)
    (matrix : DenseMatrix (Amplitude R)) : DenseMatrix (Amplitude R) :=
  let doubled := phase.scale (-Scalar.two)
  let weights := Array.ofFn fun col : Fin matrix.cols =>
    sumTo reflection.axis.size (fun step =>
      (reflection.axis[step]?.getD 0).conj * matrix.entry (reflection.first + step) col) * doubled
  ofFn matrix.rows matrix.cols fun row col =>
    match reflection.component? row with
    | some component =>
        if fromCol ≤ col then weights[col]?.getD 0 * component + phase * matrix.entry row col
        else matrix.entry row col
    | none => matrix.entry row col

/-- Reflects the rows before `rowEnd` and turns them by a phase. -/
def onColumns (reflection : Reflection R) (phase : Amplitude R) (rowEnd : Nat)
    (matrix : DenseMatrix (Amplitude R)) : DenseMatrix (Amplitude R) :=
  let doubled := phase.scale (-Scalar.two)
  let weights := Array.ofFn fun row : Fin matrix.rows =>
    sumTo reflection.axis.size fun step =>
      matrix.entry row (reflection.first + step) * reflection.axis[step]?.getD 0
  ofFn matrix.rows matrix.cols fun row col =>
    match reflection.component? col with
    | some component =>
        if row < rowEnd then
          doubled * component.conj * weights[row]?.getD 0 + phase * matrix.entry row col
        else matrix.entry row col
    | none => matrix.entry row col

end Reflection

/-- A rotation of two neighbouring coordinates, `first` and `first + 1`. -/
structure PlaneRotation (R : Type) where
  first : Nat
  cosine : R
  sine : Amplitude R

namespace PlaneRotation

/-- The rotation whose first column points along `(upper, lower)`; the rotation by
nothing if that vector has no length. -/
def along (first : Nat) (upper lower : Amplitude R) : PlaneRotation R :=
  let length := Scalar.sqrt (upper.norm * upper.norm + lower.normSquare)
  if Scalar.lt 0 length then
    ⟨first, upper.norm / length, lower / upper.direction.scale length⟩
  else ⟨first, 1, 0⟩

/-- Rotates the columns from `first` on backwards. -/
def onRows (rotation : PlaneRotation R) (matrix : DenseMatrix (Amplitude R)) :
    DenseMatrix (Amplitude R) :=
  ofFn matrix.rows matrix.cols fun row col =>
    let upper := matrix.entry rotation.first col
    let lower := matrix.entry (rotation.first + 1) col
    if col < rotation.first then matrix.entry row col
    else if row = rotation.first then
      upper.scale rotation.cosine + rotation.sine.conj * lower
    else if row = rotation.first + 1 then
      lower.scale rotation.cosine - rotation.sine * upper
    else matrix.entry row col

/-- Rotates the rows up to `first + 1` forwards. -/
def onColumns (rotation : PlaneRotation R) (matrix : DenseMatrix (Amplitude R)) :
    DenseMatrix (Amplitude R) :=
  ofFn matrix.rows matrix.cols fun row col =>
    let left := matrix.entry row rotation.first
    let right := matrix.entry row (rotation.first + 1)
    if rotation.first + 1 < row then matrix.entry row col
    else if col = rotation.first then
      left.scale rotation.cosine + rotation.sine * right
    else if col = rotation.first + 1 then
      right.scale rotation.cosine - rotation.sine.conj * left
    else matrix.entry row col

end PlaneRotation

end QuditCircuits.DenseMatrix
