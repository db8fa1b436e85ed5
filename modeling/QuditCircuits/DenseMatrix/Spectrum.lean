import QuditCircuits.DenseMatrix.Reflection

/-!
# Eigenvalues

Eigenvalues of a square complex matrix, read off the diagonal of a triangular
matrix that is unitarily similar to it. Reflections first clear all entries below
the subdiagonal (`hessenberg`). Steps with two shifts at once then drive the
subdiagonal to zero from the end (`shiftStep`), and blocks of two rows are made
triangular by one rotation (`splitBlock`).
-/

namespace QuditCircuits.DenseMatrix

variable {R : Type} [Scalar R]

/-- The matrix with one entry replaced. -/
def replaceEntry (matrix : DenseMatrix (Amplitude R)) (row col : Nat) (value : Amplitude R) :
    DenseMatrix (Amplitude R) :=
  ofFn matrix.rows matrix.cols fun i j => if i = row ∧ j = col then value else matrix.entry i j

/-- The entries of a column in some consecutive rows. -/
def columnPart (matrix : DenseMatrix (Amplitude R)) (col firstRow count : Nat) :
    List (Amplitude R) :=
  (List.range' firstRow count).map fun row => matrix.entry row col

/-- The diagonal of a square matrix. -/
def mainDiagonal (matrix : DenseMatrix (Amplitude R)) : List (Amplitude R) :=
  (List.range matrix.rows).map fun row => matrix.entry row row

/-! ## Clearing below the subdiagonal -/

/-- Clears one column below the subdiagonal by a reflection of both sides, turned
so that the subdiagonal entry is not negative. -/
def clearColumn (matrix : DenseMatrix (Amplitude R)) (col : Nat) : DenseMatrix (Amplitude R) :=
  let size := matrix.rows
  let (image, reflection?) := Reflection.clearing (col + 1)
    (matrix.columnPart col (col + 1) (size - (col + 1)))
  let turned :=
    match reflection? with
    | none => matrix
    | some reflection =>
        let phase := image.direction
        reflection.onRows phase.conj (col + 1) (reflection.onColumns phase size matrix)
  ofFn size size fun row other =>
    if other = col ∧ row = col + 1 then Amplitude.ofReal image.norm
    else if other = col ∧ col + 1 < row then 0
    else turned.entry row other

/-- A similar matrix that is zero below the subdiagonal. -/
def hessenberg (matrix : DenseMatrix (Amplitude R)) : DenseMatrix (Amplitude R) :=
  (List.range (matrix.rows - 1)).foldl clearColumn matrix

/-! ## Splitting at the subdiagonal -/

/-- Whether the subdiagonal entry in row `row + 1` is negligible beside the diagonal
entries next to it. -/
def negligible (matrix : DenseMatrix (Amplitude R)) (row : Nat) : Bool :=
  Scalar.le (matrix.entry (row + 1) row).taxicab
    (Scalar.decimal 1 14 *
      ((matrix.entry (row + 1) (row + 1)).taxicab + (matrix.entry row row).taxicab))

/-- Drops rows from the end while their subdiagonal entries are negligible. Answers
with the last row left and the matrix without those entries. -/
def trimEnd : Nat → DenseMatrix (Amplitude R) → Nat × DenseMatrix (Amplitude R)
  | 0, matrix => (0, matrix)
  | row + 1, matrix =>
      if matrix.negligible row then trimEnd row (matrix.replaceEntry (row + 1) row 0)
      else (row + 1, matrix)

/-- The first row of the block that contains a row, and the matrix without the
negligible entry in front of it. -/
def blockStart : Nat → DenseMatrix (Amplitude R) → Nat × DenseMatrix (Amplitude R)
  | 0, matrix => (0, matrix)
  | row + 1, matrix =>
      if (matrix.entry (row + 1) row).isZero || matrix.negligible row then
        (row + 1, matrix.replaceEntry (row + 1) row 0)
      else blockStart row matrix

/-! ## Blocks of two rows -/

/-- The rotation that makes the block of rows `first` and `first + 1` triangular,
unless it is so already. Its first column is an eigenvector, found from the
eigenvalue farther from the lower diagonal entry. -/
def blockRotation? (matrix : DenseMatrix (Amplitude R)) (first : Nat) :
    Option (PlaneRotation R) :=
  let upper := matrix.entry first first
  let lower := matrix.entry (first + 1) (first + 1)
  let below := matrix.entry (first + 1) first
  if below.isZero then none
  else
    let half : Amplitude R := Amplitude.ofReal (Scalar.decimal 5 1)
    let difference := (upper - lower) * half
    let root := (below * matrix.entry first (first + 1) + difference * difference).polarRoot
    let centre := (upper + lower) * half
    let plus := centre + root - lower
    let minus := centre - root - lower
    if Scalar.lt minus.taxicab plus.taxicab then some (PlaneRotation.along first plus below)
    else some (PlaneRotation.along first minus below)

/-- Makes the block of rows `first` and `first + 1` triangular. -/
def splitBlock (matrix : DenseMatrix (Amplitude R)) (first : Nat) : DenseMatrix (Amplitude R) :=
  match matrix.blockRotation? first with
  | none => matrix
  | some rotation =>
      (rotation.onColumns (rotation.onRows matrix)).replaceEntry (first + 1) first 0

/-! ## Larger blocks -/

/-- The sum and the product of the two shifts for the block that ends at row `last`:
the eigenvalues of its last two rows. Every twentieth try without success takes
other shifts, since some matrices are left unchanged by these. -/
def shifts (matrix : DenseMatrix (Amplitude R)) (tries last : Nat) :
    Amplitude R × Amplitude R :=
  let lower := matrix.entry last last
  let upper := matrix.entry (last - 1) (last - 1)
  if tries % 20 = 19 then
    let size := (matrix.entry last (last - 1)).norm
      + (matrix.entry (last - 1) (last - 2)).norm
    (Amplitude.ofReal (Scalar.decimal 15 1 * size), Amplitude.ofReal (size * size))
  else
    (lower + upper,
      lower * upper - matrix.entry last (last - 1) * matrix.entry (last - 1) last)

/-- The leading entries of the first column of `(H - a)(H - b)`, for a block `H` that
begins at row `first` and shifts `a` and `b` with the given sum and product. -/
def shiftedColumn (matrix : DenseMatrix (Amplitude R)) (first : Nat)
    (total product : Amplitude R) : List (Amplitude R) :=
  let corner := matrix.entry first first
  let below := matrix.entry (first + 1) first
  [corner * corner + matrix.entry first (first + 1) * below - total * corner + product,
    below * (corner + matrix.entry (first + 1) (first + 1) - total),
    below * matrix.entry (first + 2) (first + 1)]

/-- Reflects the coordinates from `row` on so that the given column, which stands in
front of them unless the block begins there, is cleared below its first entry. -/
def chase (first last : Nat) (matrix : DenseMatrix (Amplitude R)) (row : Nat)
    (column : List (Amplitude R)) : DenseMatrix (Amplitude R) :=
  match Reflection.clearing row column with
  | (_, none) => matrix
  | (image, some reflection) =>
      let cleared :=
        if first < row then
          ofFn matrix.rows matrix.cols fun i j =>
            if j + 1 = row ∧ row ≤ i ∧ i < row + column.length then
              if i = row then image else 0
            else matrix.entry i j
        else matrix
      reflection.onColumns 1 (min (row + 4) (last + 1)) (reflection.onRows 1 row cleared)

/-- One step with two shifts on the block from row `first` to row `last`, which has
at least three rows. The first reflection makes a bulge below the subdiagonal; the
others chase it out at the end. -/
def shiftStep (matrix : DenseMatrix (Amplitude R)) (tries first last : Nat) :
    DenseMatrix (Amplitude R) :=
  let (total, product) := matrix.shifts tries last
  let started := chase first last matrix first (matrix.shiftedColumn first total product)
  (List.range' (first + 1) (last - first - 1)).foldl
    (fun current row =>
      chase first last current row
        (current.columnPart (row - 1) row (min 3 (last + 1 - row))))
    started

/-- A similar triangular matrix, if a bounded number of steps makes the rows up to
`last` triangular. -/
def triangularize : Nat → Nat → Nat → DenseMatrix (Amplitude R) →
    Option (DenseMatrix (Amplitude R))
  | 0, _, _, _ => none
  | steps + 1, tries, last, matrix =>
      let (left, trimmed) := trimEnd last matrix
      if left = 0 then some trimmed
      else
        let (first, block) := blockStart (left - 1) trimmed
        if first + 1 < left then
          let tries := if left = last then tries else 0
          triangularize steps (tries + 1) left (block.shiftStep tries first left)
        else if left ≤ 2 then some (block.splitBlock first)
        else triangularize steps 0 (left - 2) (block.splitBlock first)

/-! ## Eigenvalues -/

/-- The largest sum of the absolute values of both parts of an entry. -/
def largestEntry (matrix : DenseMatrix (Amplitude R)) : R :=
  match matrix.entries.toList with
  | [] => 0
  | entry :: others =>
      others.foldl (fun largest other => Scalar.max largest other.taxicab) entry.taxicab

/-- The eigenvalues of a square matrix with at least two rows, if the iteration
settles. Matrices with more than two rows are first divided by their largest entry. -/
def iteratedEigenvalues (matrix : DenseMatrix (Amplitude R)) : Option (List (Amplitude R)) :=
  if matrix.rows = 2 then some (matrix.splitBlock 0).mainDiagonal
  else
    let largest := matrix.largestEntry
    let unit := if Scalar.isZero largest then 1 else largest
    let reduced := hessenberg (matrix.map (·.unscale unit))
    (triangularize (100 * matrix.rows) 0 (matrix.rows - 1) reduced).map fun triangular =>
      triangular.mainDiagonal.map (·.scale unit)

/-- The eigenvalues of a square matrix, if the iteration settles. A matrix with at
most one row answers with its diagonal; of a wider one the leading square counts. -/
def eigenvalues (matrix : DenseMatrix (Amplitude R)) :
    Except Fault (Option (List (Amplitude R))) :=
  let size := matrix.rows
  if size ≤ 1 then .ok (some ((List.range (min size matrix.cols)).map fun k => matrix.entry k k))
  else if matrix.cols < size then .error .indexOutOfRange
  else .ok (ofFn size size matrix.entry).iteratedEigenvalues

/-- The phase angles of the eigenvalues. -/
def eigenphases (matrix : DenseMatrix (Amplitude R)) : Except Fault (Option (List R)) := do
  return (← matrix.eigenvalues).map (·.map Amplitude.arg)

end QuditCircuits.DenseMatrix
