import Mathlib.Algebra.BigOperators.Intervals
import Mathlib.Algebra.BigOperators.Ring.Finset
import QuditCircuits.DenseMatrix.Basic

/-!
# Dense matrices by their entries

A matrix is determined by its size and entries, and the entries of a product over
exact scalars are finite sums.
-/

namespace QuditCircuits.DenseMatrix

variable {α : Type}

/-- Only the entries inside the matrix matter. -/
theorem ofFn_congr {rows cols : Nat} {first second : Nat → Nat → α}
    (same : ∀ row col, row < rows → col < cols → first row col = second row col) :
    ofFn rows cols first = ofFn rows cols second := by
  refine DenseMatrix.ext (by rfl) (by rfl) fun row col rowInside colInside => ?_
  rw [rows_ofFn] at rowInside
  rw [cols_ofFn] at colInside
  simp only [get?_ofFn, rowInside, colInside, and_self, if_true, same row col rowInside colInside]

section Entries

variable [Zero α]

/-- Inside the matrix there is an entry to look up. -/
theorem get?_eq_some_entry {matrix : DenseMatrix α} {row col : Nat}
    (rowInside : row < matrix.rows) (colInside : col < matrix.cols) :
    matrix.get? row col = some (matrix.entry row col) := by
  have inside : row * matrix.cols + col < matrix.entries.size := by
    rw [matrix.size_eq]
    exact cell_lt rowInside colInside
  simp [entry, get?, rowInside, colInside, inside]

theorem get_eq_ok_entry {matrix : DenseMatrix α} {row col : Nat}
    (rowInside : row < matrix.rows) (colInside : col < matrix.cols) :
    matrix.get row col = .ok (matrix.entry row col) := by
  rw [get, get?_eq_some_entry rowInside colInside]

/-- Matrices of one size with equal entries inside are equal. -/
theorem ext_entry {first second : DenseMatrix α} (rows : first.rows = second.rows)
    (cols : first.cols = second.cols)
    (entries : ∀ row col, row < first.rows → col < first.cols →
      first.entry row col = second.entry row col) : first = second := by
  refine DenseMatrix.ext rows cols fun row col rowInside colInside => ?_
  rw [get?_eq_some_entry rowInside colInside,
    get?_eq_some_entry (rows ▸ rowInside) (cols ▸ colInside),
    entries row col rowInside colInside]

end Entries

/-- The loop over the first terms is their finite sum. -/
theorem sumTo_eq_sum [AddCommMonoid α] {count : Nat} {term : Nat → α} :
    sumTo count term = ∑ index ∈ Finset.range count, term index := by
  unfold sumTo
  induction count with
  | zero => rfl
  | succ count ih => rw [Nat.fold_succ, ih, Finset.sum_range_succ]

/-- The entries of a product. -/
theorem entry_mul [NonUnitalNonAssocSemiring α] {left right : DenseMatrix α} {row col : Nat}
    (rowInside : row < left.rows) (colInside : col < right.cols) :
    (mul left right).entry row col =
      ∑ inner ∈ Finset.range left.cols, left.entry row inner * right.entry inner col := by
  rw [mul, entry_ofFn rowInside colInside, sumTo_eq_sum]

/-- The identity is neutral on the left. -/
theorem identity_mul [NonAssocSemiring α] {matrix : DenseMatrix α} :
    mul (identity matrix.rows) matrix = matrix := by
  refine ext_entry (by rfl) (by rfl) fun row col rowInside colInside => ?_
  have rowSmall : row < matrix.rows := rowInside
  have colSmall : col < matrix.cols := colInside
  have terms : ∀ inner ∈ Finset.range matrix.rows,
      (identity matrix.rows : DenseMatrix α).entry row inner * matrix.entry inner col =
        if row = inner then matrix.entry inner col else 0 := by
    intro inner member
    rw [identity, entry_ofFn rowSmall (Finset.mem_range.mp member), ite_mul, one_mul, zero_mul]
  have rowIdentity : row < (identity matrix.rows : DenseMatrix α).rows := rowInside
  rw [entry_mul rowIdentity colSmall, cols_identity,
    Finset.sum_congr rfl terms, Finset.sum_ite_eq, if_pos (Finset.mem_range.mpr rowSmall)]

theorem mul_identity [NonAssocSemiring α] {matrix : DenseMatrix α} :
    mul matrix (identity matrix.cols) = matrix := by
  refine ext_entry (by rfl) (by rfl) fun row col rowInside colInside => ?_
  have rowSmall : row < matrix.rows := rowInside
  have colSmall : col < matrix.cols := colInside
  have terms : ∀ inner ∈ Finset.range matrix.cols,
      matrix.entry row inner * (identity matrix.cols : DenseMatrix α).entry inner col =
        if inner = col then matrix.entry row inner else 0 := by
    intro inner member
    rw [identity, entry_ofFn (Finset.mem_range.mp member) colSmall, mul_ite, mul_one, mul_zero]
  have colIdentity : col < (identity matrix.cols : DenseMatrix α).cols := colInside
  rw [entry_mul rowSmall colIdentity, Finset.sum_congr rfl terms, Finset.sum_ite_eq',
    if_pos (Finset.mem_range.mpr colSmall)]

/-- Products of matrices whose sizes meet are associative. -/
theorem mul_mul_assoc [NonUnitalSemiring α] {first second third : DenseMatrix α}
    (meets : first.cols = second.rows) :
    mul (mul first second) third = mul first (mul second third) := by
  refine ext_entry (by rfl) (by rfl) fun row col rowInside colInside => ?_
  have rowSmall : row < first.rows := rowInside
  have colSmall : col < third.cols := colInside
  have colProduct : col < (mul second third).cols := colInside
  calc (mul (mul first second) third).entry row col
      = ∑ last ∈ Finset.range second.cols, (mul first second).entry row last *
          third.entry last col := entry_mul rowSmall colSmall
    _ = ∑ last ∈ Finset.range second.cols, ∑ inner ∈ Finset.range first.cols,
          first.entry row inner * (second.entry inner last * third.entry last col) :=
        Finset.sum_congr rfl fun last member => by
          rw [entry_mul rowSmall (Finset.mem_range.mp member), Finset.sum_mul]
          simp only [mul_assoc]
    _ = ∑ inner ∈ Finset.range first.cols, ∑ last ∈ Finset.range second.cols,
          first.entry row inner * (second.entry inner last * third.entry last col) :=
        Finset.sum_comm
    _ = ∑ inner ∈ Finset.range first.cols, first.entry row inner *
          (mul second third).entry inner col :=
        Finset.sum_congr rfl fun inner member => by
          rw [entry_mul (meets ▸ Finset.mem_range.mp member) colSmall, Finset.mul_sum]
    _ = (mul first (mul second third)).entry row col :=
        Eq.symm (entry_mul rowSmall colProduct)

end QuditCircuits.DenseMatrix
