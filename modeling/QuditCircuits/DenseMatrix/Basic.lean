import QuditCircuits.Machine
import QuditCircuits.Amplitude

/-!
# Dense matrices

A matrix stores its entries row by row. Entries outside the matrix read as zero
(`DenseMatrix.entry`); checked access reports a `Fault` instead. Sums and products
only need the ring operations of the entry type, so the laws of embeddings and
circuits can be stated over any exact entries.
-/

namespace QuditCircuits

/-- A matrix with its entries stored row by row. -/
structure DenseMatrix (α : Type) where
  rows : Nat
  cols : Nat
  entries : Array α
  size_eq : entries.size = rows * cols

namespace DenseMatrix

variable {α : Type}

/-- The matrix with the given entries. -/
def ofFn (rows cols : Nat) (entry : Nat → Nat → α) : DenseMatrix α where
  rows := rows
  cols := cols
  entries := Array.ofFn fun cell : Fin (rows * cols) => entry (cell / cols) (cell % cols)
  size_eq := by simp

/-- The matrix with the given rows, or nothing if their lengths differ. -/
def ofRows? (rows : List (List α)) : Option (DenseMatrix α) :=
  let cols := (rows.head?.map List.length).getD 0
  let entries := rows.flatten.toArray
  if size_eq : entries.size = rows.length * cols then
    if rows.all (·.length == cols) then some ⟨rows.length, cols, entries, size_eq⟩ else none
  else none

/-- The entry at a position, if it lies inside the matrix. -/
def get? (matrix : DenseMatrix α) (row col : Nat) : Option α :=
  if row < matrix.rows ∧ col < matrix.cols then matrix.entries[row * matrix.cols + col]? else none

/-- The entry at a position that must lie inside the matrix. -/
def get (matrix : DenseMatrix α) (row col : Nat) : Except Fault α :=
  match matrix.get? row col with
  | some value => .ok value
  | none => .error .indexOutOfRange

/-- The entry at a position; entries outside the matrix are zero. -/
def entry [Zero α] (matrix : DenseMatrix α) (row col : Nat) : α :=
  (matrix.get? row col).getD 0

/-- Applies a function to every entry. -/
def map {β : Type} (transform : α → β) (matrix : DenseMatrix α) : DenseMatrix β where
  rows := matrix.rows
  cols := matrix.cols
  entries := matrix.entries.map transform
  size_eq := by simp [matrix.size_eq]

/-- A cell inside the matrix is stored inside its entries. -/
theorem cell_lt {rows cols row col : Nat} (rowInside : row < rows) (colInside : col < cols) :
    row * cols + col < rows * cols :=
  calc row * cols + col < row * cols + cols := Nat.add_lt_add_left colInside _
    _ = (row + 1) * cols := (Nat.succ_mul row cols).symm
    _ ≤ rows * cols := Nat.mul_le_mul_right cols rowInside

@[simp] theorem rows_ofFn {rows cols : Nat} {entry : Nat → Nat → α} :
    (ofFn rows cols entry).rows = rows := rfl

@[simp] theorem cols_ofFn {rows cols : Nat} {entry : Nat → Nat → α} :
    (ofFn rows cols entry).cols = cols := rfl

/-- A tabulated matrix has the values of its function, and nothing outside. -/
theorem get?_ofFn {rows cols row col : Nat} {entry : Nat → Nat → α} :
    (ofFn rows cols entry).get? row col =
      if row < rows ∧ col < cols then some (entry row col) else none := by
  unfold get?
  by_cases inside : row < rows ∧ col < cols
  · have small := cell_lt inside.1 inside.2
    have positive : 0 < cols := Nat.lt_of_le_of_lt (Nat.zero_le _) inside.2
    have quotient : (row * cols + col) / cols = row := by
      rw [Nat.mul_comm, Nat.mul_add_div positive, Nat.div_eq_of_lt inside.2, Nat.add_zero]
    have remainder : (row * cols + col) % cols = col := by
      rw [Nat.mul_comm, Nat.mul_add_mod, Nat.mod_eq_of_lt inside.2]
    simp [ofFn, inside, small, quotient, remainder]
  · simp [inside]

theorem entry_ofFn [Zero α] {rows cols row col : Nat} {value : Nat → Nat → α}
    (rowInside : row < rows) (colInside : col < cols) :
    (ofFn rows cols value).entry row col = value row col := by
  simp [entry, get?_ofFn, rowInside, colInside]

/-- Matrices of one size with equal entries are equal. -/
theorem ext {first second : DenseMatrix α} (rows : first.rows = second.rows)
    (cols : first.cols = second.cols)
    (entries : ∀ row col, row < first.rows → col < first.cols →
      first.get? row col = second.get? row col) : first = second := by
  obtain ⟨rows, cols, cells, size⟩ := first
  obtain ⟨_, _, others, otherSize⟩ := second
  cases rows
  cases cols
  congr
  apply Array.ext (size.trans otherSize.symm)
  intro cell inside _
  have positive : 0 < cols := by
    rcases Nat.eq_zero_or_pos cols with none | positive
    · simp [size, none] at inside
    · exact positive
  have rowInside : cell / cols < rows := Nat.div_lt_of_lt_mul (by
    rw [Nat.mul_comm, ← size]; exact inside)
  have colInside : cell % cols < cols := Nat.mod_lt _ positive
  have equal := entries (cell / cols) (cell % cols) rowInside colInside
  have position : cell / cols * cols + cell % cols = cell := by
    rw [Nat.mul_comm]; exact Nat.div_add_mod cell cols
  simp only [get?, rowInside, colInside, and_self, if_true, position] at equal
  simpa [Array.getElem?_eq_getElem inside, Array.getElem?_eq_getElem (otherSize ▸ size ▸ inside)]
    using equal

/-! ## Arithmetic -/

/-- The identity matrix. -/
def identity [Zero α] [One α] (size : Nat) : DenseMatrix α :=
  ofFn size size fun row col => if row = col then 1 else 0

/-- The matrix with the given entries on its diagonal and zero elsewhere. -/
def diagonal [Zero α] (values : Array α) : DenseMatrix α :=
  ofFn values.size values.size fun row col => if row = col then values[row]?.getD 0 else 0

/-- Sum of the terms at the first `count` indices, from the first on. -/
def sumTo [Zero α] [Add α] (count : Nat) (term : Nat → α) : α :=
  Nat.fold count (fun index _ total => total + term index) 0

/-- Product of matrices whose sizes meet. -/
def mul [Zero α] [Add α] [Mul α] (left right : DenseMatrix α) : DenseMatrix α :=
  ofFn left.rows right.cols fun row col =>
    sumTo left.cols fun inner => left.entry row inner * right.entry inner col

/-- Product of two matrices; their sizes are checked. -/
def mul? [Zero α] [Add α] [Mul α] (left right : DenseMatrix α) :
    Except Fault (DenseMatrix α) :=
  if left.cols = right.rows then .ok (mul left right) else .error .sizeMismatch

/-- The identity matrix, if its entries of `width` bytes each can be stored. -/
def identity? [Zero α] [One α] (size width : Nat) : Except Fault (DenseMatrix α) := do
  Machine.reserve (size * size) width
  return identity size

@[simp] theorem rows_mul [Zero α] [Add α] [Mul α] {left right : DenseMatrix α} :
    (mul left right).rows = left.rows := rfl

@[simp] theorem cols_mul [Zero α] [Add α] [Mul α] {left right : DenseMatrix α} :
    (mul left right).cols = right.cols := rfl

@[simp] theorem rows_identity [Zero α] [One α] {size : Nat} :
    (identity size : DenseMatrix α).rows = size := rfl

@[simp] theorem cols_identity [Zero α] [One α] {size : Nat} :
    (identity size : DenseMatrix α).cols = size := rfl

/-! ## Complex matrices -/

section Complex

variable {R : Type} [Scalar R]

/-- The conjugate transpose. -/
def adjoint (matrix : DenseMatrix (Amplitude R)) : DenseMatrix (Amplitude R) :=
  ofFn matrix.cols matrix.rows fun row col => (matrix.entry col row).conj

/-- The 2×2 matrix with the given rows. -/
def square (topLeft topRight bottomLeft bottomRight : α) : DenseMatrix α where
  rows := 2
  cols := 2
  entries := #[topLeft, topRight, bottomLeft, bottomRight]
  size_eq := rfl

/-- Whether two matrices are stored alike. -/
def same (first second : DenseMatrix (Amplitude R)) : Bool :=
  first.rows == second.rows && first.cols == second.cols &&
    (first.entries.toList.zip second.entries.toList).all fun pair => pair.1.same pair.2

end Complex

/-- The number of bytes of an amplitude. -/
def amplitudeWidth : Nat := 16

end DenseMatrix

end QuditCircuits
