import QuditCircuits.Gate.Unitary
import QuditCircuits.Proofs.Amplitude
import QuditCircuits.Proofs.Register.EmbeddedProduct

/-!
# Flips of qubits in a register

Flipping the qubits at some positions takes each basis state to another one and back
(`flippedRow_flippedRow`). In front of an operator flips exchange its rows (`mul_lifted_flip`),
and between two rounds of the same flips an operator acts as on the flipped basis states
(`entry_between_flips`), which makes no difference to operators at other positions
(`entry_lifted_flippedRow`).
-/

namespace QuditCircuits.Register

open DenseMatrix

/-- Levels with zero and one exchanged at some positions. -/
def flipped (positions levels : List Nat) : List Nat :=
  levels.mapIdx fun position level => if position ∈ positions then 1 - level else level

/-- The basis state with the qubits at some positions flipped. -/
def flippedRow (positions shape : List Nat) (row : Nat) : Nat :=
  number (flipped positions (levelsOf row shape)) shape

theorem getD_flipped {positions levels : List Nat} {index : Nat} (small : index < levels.length) :
    (flipped positions levels).getD index 0 =
      if index ∈ positions then 1 - levels.getD index 0 else levels.getD index 0 := by
  have inside : index < (flipped positions levels).length := by simpa [flipped] using small
  rw [List.getD_eq_getElem _ _ inside, List.getD_eq_getElem _ _ small]
  exact List.getElem_mapIdx ..

/-- Basis states with equal levels are equal. -/
theorem eq_of_levels {shape : List Nat} (positive : ∀ dimension ∈ shape, 0 < dimension)
    {row col : Nat} (rowInside : row < shape.prod) (colInside : col < shape.prod)
    (same : ∀ index < shape.length,
      (levelsOf row shape).getD index 0 = (levelsOf col shape).getD index 0) : row = col :=
  (eq_iff_sameOutside positive List.nodup_nil (List.forall_mem_nil _) rowInside colInside).mpr
    ⟨fun index small _ => same index small, rfl⟩

section Qubits

variable {positions shape : List Nat} (positive : ∀ dimension ∈ shape, 0 < dimension)
  (qubits : ∀ position ∈ positions, shape.getD position 0 = 2)

include qubits

/-- Positions of qubits lie in the register, since outside of it no dimension is two. -/
theorem inside_of_qubits : ∀ position ∈ positions, position < shape.length := by
  intro position listed
  by_contra outside
  have missing : shape.getD position 0 = 0 := List.getD_eq_default _ _ (Nat.le_of_not_lt outside)
  rw [qubits position listed] at missing
  cases missing

include positive

/-- A listed qudit has the levels zero and one. -/
theorem level_lt_two {position : Nat} (listed : position ∈ positions) (row : Nat) :
    (levelsOf row shape).getD position 0 < 2 := by
  have within : Within (levelsOf row shape) shape := within_levelsOf positive
  rw [← qubits position listed]
  exact within.getD_lt (inside_of_qubits qubits position listed)

/-- Flipped levels are levels of the register. -/
theorem within_flipped (row : Nat) : Within (flipped positions (levelsOf row shape)) shape := by
  have within : Within (levelsOf row shape) shape := within_levelsOf positive
  refine List.forall₂_iff_get.mpr ⟨by simp [flipped], fun index small inside => ?_⟩
  have below : index < (levelsOf row shape).length := by simpa using inside
  have level := within.getD_lt inside
  rw [List.get_eq_getElem, List.get_eq_getElem, ← List.getD_eq_getElem _ 0 small,
    ← List.getD_eq_getElem _ 0 inside, getD_flipped below]
  split
  case isTrue listed =>
    rw [qubits index listed]
    omega
  case isFalse => exact level

/-- The row of the flipped levels lies in the register. -/
theorem flippedRow_lt (row : Nat) : flippedRow positions shape row < shape.prod :=
  number_lt (within_flipped positive qubits row)

/-- At the flipped qubits the levels are exchanged, and elsewhere they are kept. -/
theorem getD_flippedRow {index : Nat} (small : index < shape.length) (row : Nat) :
    (levelsOf (flippedRow positions shape row) shape).getD index 0 =
      if index ∈ positions then 1 - (levelsOf row shape).getD index 0
      else (levelsOf row shape).getD index 0 := by
  rw [flippedRow, levelsOf_number (within_flipped positive qubits row)]
  exact getD_flipped (by simpa using small)

/-- Flipping twice does nothing. -/
theorem flippedRow_flippedRow {row : Nat} (inside : row < shape.prod) :
    flippedRow positions shape (flippedRow positions shape row) = row := by
  refine eq_of_levels positive (flippedRow_lt positive qubits _) inside fun index small => ?_
  rw [getD_flippedRow positive qubits small, getD_flippedRow positive qubits small]
  split
  case isTrue listed =>
    have := level_lt_two positive qubits listed row
    omega
  case isFalse => rfl

/-- Flipping is its own inverse: a row is flipped to another if that one is flipped to it. -/
theorem flippedRow_eq_iff {row col : Nat} (rowInside : row < shape.prod)
    (colInside : col < shape.prod) :
    flippedRow positions shape row = col ↔ row = flippedRow positions shape col := by
  constructor
  · rintro rfl
    exact (flippedRow_flippedRow positive qubits rowInside).symm
  · rintro rfl
    exact flippedRow_flippedRow positive qubits colInside

/-- Levels away from the flipped qubits stay. -/
theorem pick_flippedRow {others : List Nat} (inside : ∀ position ∈ others, position < shape.length)
    (apart : List.Disjoint positions others) (row : Nat) :
    pick (levelsOf (flippedRow positions shape row) shape) others =
      pick (levelsOf row shape) others := by
  refine List.map_congr_left fun position listed => ?_
  rw [getD_flippedRow positive qubits (inside position listed),
    if_neg fun flips => apart flips listed]

/-- Flipping both rows does not change whether their levels agree outside of some positions. -/
theorem sameOutside_flippedRow {others : List Nat} {row col : Nat} :
    SameOutside shape.length others (levelsOf (flippedRow positions shape row) shape)
        (levelsOf (flippedRow positions shape col) shape) ↔
      SameOutside shape.length others (levelsOf row shape) (levelsOf col shape) := by
  refine forall₃_congr fun index small _ => ?_
  rw [getD_flippedRow positive qubits small, getD_flippedRow positive qubits small]
  split
  case isTrue listed =>
    have := level_lt_two positive qubits listed row
    have := level_lt_two positive qubits listed col
    omega
  case isFalse => rfl

/-- An operator at other positions acts alike on flipped basis states. -/
theorem entry_lifted_flippedRow {α : Type} [Zero α] {matrix : DenseMatrix α} {others : List Nat}
    (inside : ∀ position ∈ others, position < shape.length)
    (apart : List.Disjoint positions others) {row col : Nat} (rowInside : row < shape.prod)
    (colInside : col < shape.prod) :
    (lifted matrix others shape).entry (flippedRow positions shape row)
        (flippedRow positions shape col) = (lifted matrix others shape).entry row col := by
  rw [entry_lifted (flippedRow_lt positive qubits _) (flippedRow_lt positive qubits _),
    entry_lifted rowInside colInside, pick_flippedRow positive qubits inside apart,
    pick_flippedRow positive qubits inside apart,
    if_congr (sameOutside_flippedRow positive qubits) rfl rfl]

end Qubits

theorem flippedRow_nil {shape : List Nat} {row : Nat} (inside : row < shape.prod) :
    flippedRow [] shape row = row := by
  have kept : flipped [] (levelsOf row shape) = levelsOf row shape :=
    List.ext_getElem (by simp [flipped]) fun index _ _ => by simp [flipped]
  rw [flippedRow, kept, number_levelsOf inside]

/-- Further qubits are flipped one by one. -/
theorem flippedRow_cons {position : Nat} {positions shape : List Nat}
    (positive : ∀ dimension ∈ shape, 0 < dimension)
    (qubits : ∀ other ∈ position :: positions, shape.getD other 0 = 2)
    (fresh : position ∉ positions) (row : Nat) :
    flippedRow [position] shape (flippedRow positions shape row) =
      flippedRow (position :: positions) shape row := by
  obtain ⟨here, others⟩ := List.forall_mem_cons.mp qubits
  have single : ∀ other ∈ [position], shape.getD other 0 = 2 :=
    List.forall_mem_singleton.mpr here
  refine eq_of_levels positive (flippedRow_lt positive single _) (flippedRow_lt positive qubits _)
    fun index small => ?_
  rw [getD_flippedRow positive single small, getD_flippedRow positive others small,
    getD_flippedRow positive qubits small]
  by_cases same : index = position
  · subst same
    simp [fresh]
  · simp [same]

/-! ## Rounds of flips -/

/-- A matrix with its rows exchanged by flips. -/
def rowsFlipped {α : Type} [Zero α] (positions shape : List Nat) (matrix : DenseMatrix α) :
    DenseMatrix α :=
  ofFn matrix.rows matrix.cols fun row col => matrix.entry (flippedRow positions shape row) col

section Rounds

variable {R : Type} [Scalar R] {positions shape : List Nat} {matrix : Unitary R}

/-- The entries of a row come from the flipped row. -/
theorem entry_rowsFlipped {row col : Nat} (rowInside : row < matrix.rows)
    (colInside : col < matrix.cols) :
    (rowsFlipped positions shape matrix).entry row col =
      matrix.entry (flippedRow positions shape row) col :=
  entry_ofFn rowInside colInside

theorem rowsFlipped_nil (rows : matrix.rows = shape.prod) :
    rowsFlipped [] shape matrix = matrix := by
  refine ext_entry (by rfl) (by rfl) fun row col rowInside colInside => ?_
  have rowSmall : row < matrix.rows := rowInside
  rw [entry_rowsFlipped rowSmall colInside, flippedRow_nil (rows ▸ rowSmall)]

/-- The matrix of an exchange has ones where row and column differ. -/
theorem entry_flip {row col : Nat} (rowSmall : row < 2) (colSmall : col < 2) :
    (Unitary.flip : Unitary R).entry row col = if 1 - row = col then 1 else 0 := by
  match row, col with
  | 0, 0 | 0, 1 | 1, 0 | 1, 1 => rfl
  | row + 2, _ | _, col + 2 => omega

variable (positive : ∀ dimension ∈ shape, 0 < dimension)
include positive

/-- Flips at one position and at the others are flips at all of them. -/
theorem rowsFlipped_cons {position : Nat}
    (qubits : ∀ other ∈ position :: positions, shape.getD other 0 = 2)
    (fresh : position ∉ positions) (rows : matrix.rows = shape.prod) :
    rowsFlipped positions shape (rowsFlipped [position] shape matrix) =
      rowsFlipped (position :: positions) shape matrix := by
  refine ofFn_congr fun row col rowInside colInside => ?_
  have others := (List.forall_mem_cons.mp qubits).2
  have small : flippedRow positions shape row < matrix.rows :=
    rows ▸ flippedRow_lt positive others row
  rw [entry_rowsFlipped small colInside, flippedRow_cons positive qubits fresh]

variable [ExactScalar R]

/-- In front of an operator a flip exchanges its rows. -/
theorem mul_lifted_flip {position : Nat} (qubit : shape.getD position 0 = 2)
    (rows : matrix.rows = shape.prod) :
    mul (lifted Unitary.flip [position] shape) matrix = rowsFlipped [position] shape matrix := by
  have qubits : ∀ other ∈ [position], shape.getD other 0 = 2 := List.forall_mem_singleton.mpr qubit
  have inside := inside_of_qubits qubits
  have distinct : [position].Nodup := List.nodup_singleton position
  refine ext_entry rows.symm (by rfl) fun row col rowInside colInside => ?_
  have rowSmall : row < shape.prod := rowInside
  have colSmall : col < matrix.cols := colInside
  have dimension : (pick shape [position]).prod = 2 := by simpa [pick] using qubit
  have level (index : Nat) : number (pick (levelsOf index shape) [position])
      (pick shape [position]) = (levelsOf index shape).getD position 0 := by
    simp [pick, number]
  have level_lt := level_lt_two positive qubits List.mem_cons_self row
  have reached : rowAt row (1 - (levelsOf row shape).getD position 0) [position] shape =
      flippedRow [position] shape row := by
    refine (rowAt_eq_iff positive distinct inside (flippedRow_lt positive qubits row) ?_).mpr
      ⟨fun index small outside => ?_, ?_⟩
    · omega
    · rw [getD_flippedRow positive qubits small, if_neg outside]
    · rw [level, getD_flippedRow positive qubits (inside position List.mem_cons_self),
        if_pos List.mem_cons_self]
  have terms : ∀ subRow ∈ Finset.range 2,
      (Unitary.flip : Unitary R).entry ((levelsOf row shape).getD position 0) subRow *
          matrix.entry (rowAt row subRow [position] shape) col =
        if 1 - (levelsOf row shape).getD position 0 = subRow then
          matrix.entry (rowAt row subRow [position] shape) col
        else 0 := by
    intro subRow member
    rw [entry_flip level_lt (Finset.mem_range.mp member), ite_mul, one_mul, zero_mul]
  have product : (mul (lifted Unitary.flip [position] shape) matrix).entry row col =
      ∑ inner ∈ Finset.range shape.prod, (lifted Unitary.flip [position] shape).entry row inner *
        matrix.entry inner col := entry_mul rowSmall colInside
  rw [product, sum_lifted positive distinct inside rowSmall, dimension, level,
    entry_rowsFlipped (rows ▸ rowSmall) colSmall, ← reached, Finset.sum_congr rfl terms,
    Finset.sum_ite_eq, if_pos (Finset.mem_range.mpr (by omega))]

/-- **Between two rounds of the same flips** an operator acts as on the flipped basis states. -/
theorem entry_between_flips (qubits : ∀ position ∈ positions, shape.getD position 0 = 2)
    (rows : matrix.rows = shape.prod) (cols : matrix.cols = shape.prod) {row col : Nat}
    (rowInside : row < shape.prod) (colInside : col < shape.prod) :
    (rowsFlipped positions shape
        (mul matrix (rowsFlipped positions shape (identity shape.prod)))).entry row col =
      matrix.entry (flippedRow positions shape row) (flippedRow positions shape col) := by
  have rowFlipped := flippedRow_lt positive qubits row
  have colFlipped := flippedRow_lt positive qubits col
  have terms : ∀ inner ∈ Finset.range matrix.cols,
      matrix.entry (flippedRow positions shape row) inner *
          (rowsFlipped positions shape (identity shape.prod : Unitary R)).entry inner col =
        if inner = flippedRow positions shape col then
          matrix.entry (flippedRow positions shape row) inner
        else 0 := by
    intro inner member
    have small : inner < shape.prod := cols ▸ Finset.mem_range.mp member
    have flipped : (rowsFlipped positions shape (identity shape.prod : Unitary R)).entry inner col =
        (identity shape.prod : Unitary R).entry (flippedRow positions shape inner) col :=
      entry_rowsFlipped small colInside
    rw [flipped, identity, entry_ofFn (flippedRow_lt positive qubits inner) colInside,
      if_congr (flippedRow_eq_iff positive qubits small colInside) rfl rfl, mul_ite, mul_one,
      mul_zero]
  have rowSmall : flippedRow positions shape row < matrix.rows := rows ▸ rowFlipped
  have outer : row < (mul matrix (rowsFlipped positions shape
      (identity shape.prod : Unitary R))).rows := rows ▸ rowInside
  rw [entry_rowsFlipped outer colInside, entry_mul rowSmall colInside,
    Finset.sum_congr rfl terms, Finset.sum_ite_eq',
    if_pos (Finset.mem_range.mpr (cols ▸ colFlipped))]

end Rounds

end QuditCircuits.Register
