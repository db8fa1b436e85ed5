import QuditCircuits.Proofs.Condition.Alternatives
import QuditCircuits.Proofs.DenseMatrix.Algebra
import QuditCircuits.Proofs.Register.MixedRadix
import QuditCircuits.Register.Embedding

/-!
# Operators under a condition

`controlled` is the block matrix of an operator on a target under a condition on
control qudits, with the accepted blocks found by `Condition.accepts`. The checked
embedding, which enumerates the accepted assignments instead, yields it exactly when
the matrix can be stored (`controlledEmbedding_eq_ok_iff`). Controls in front of
controls are the controls of the combined condition (`controlled_controlled`).
-/

namespace QuditCircuits

/-- A mapping into results that all succeed is the mapping of their values. -/
theorem mapM_eq_ok {ε α β : Type} {transform : α → Except ε β} {value : α → β} {items : List α}
    (succeeds : ∀ item ∈ items, transform item = .ok (value item)) :
    items.mapM transform = .ok (items.map value) := by
  induction items with
  | nil => rfl
  | cons item items ih =>
      rw [List.mapM_cons, succeeds item List.mem_cons_self,
        ih fun other member => succeeds other (List.mem_cons_of_mem _ member)]
      rfl

namespace Register

variable {α : Type}

/-- The block matrices over a register with blocks of the given size can be stored:
the blocks can be counted and the entries, of `width` bytes each, be addressed. -/
structure Storable (width : Nat) (shape : List Nat) (block : Nat) : Prop where
  blocks : shape.prod < Machine.wordRange
  size : shape.prod * block < Machine.wordRange
  entries : shape.prod * block * (shape.prod * block) * width < Machine.addressRange

/-- Blocks over appended controls can be stored as blocks of blocks. -/
theorem Storable.outer {width block : Nat} {outer inner : List Nat}
    (storable : Storable width (outer ++ inner) block)
    (positive : ∀ dimension ∈ inner, 0 < dimension) :
    Storable width outer (inner.prod * block) := by
  obtain ⟨blocks, size, entries⟩ := storable
  rw [List.prod_append] at blocks
  rw [List.prod_append, Nat.mul_assoc outer.prod] at size entries
  have factor := List.prod_pos_iff_forall_pos_nat.mpr positive
  exact ⟨Nat.lt_of_le_of_lt (Nat.le_mul_of_pos_right _ factor) blocks, size, entries⟩

/-- What can be stored under all controls can be stored under the inner ones. -/
theorem Storable.inner {width block : Nat} {outer inner : List Nat}
    (storable : Storable width (outer ++ inner) block)
    (positive : ∀ dimension ∈ outer, 0 < dimension) : Storable width inner block := by
  obtain ⟨blocks, size, entries⟩ := storable
  rw [List.prod_append] at blocks
  rw [List.prod_append, Nat.mul_assoc outer.prod] at size entries
  have factor := List.prod_pos_iff_forall_pos_nat.mpr positive
  have smaller := Nat.le_mul_of_pos_left (inner.prod * block) factor
  exact ⟨Nat.lt_of_le_of_lt (Nat.le_mul_of_pos_left _ factor) blocks,
    Nat.lt_of_le_of_lt smaller size,
    Nat.lt_of_le_of_lt (Nat.mul_le_mul_right _ (Nat.mul_le_mul smaller smaller)) entries⟩

/-- Blocks of blocks that are not empty can be counted over the appended controls. -/
theorem Storable.append {width block : Nat} {outer inner : List Nat} (positive : 0 < block)
    (storable : Storable width outer (inner.prod * block)) :
    Storable width (outer ++ inner) block := by
  obtain ⟨_, size, entries⟩ := storable
  rw [← Nat.mul_assoc outer.prod, ← List.prod_append] at size entries
  exact ⟨Nat.lt_of_le_of_lt (Nat.le_mul_of_pos_right _ positive) size, size, entries⟩

theorem Storable.mono {width block smaller : Nat} {shape : List Nat} (bound : smaller ≤ block)
    (storable : Storable width shape block) : Storable width shape smaller := by
  obtain ⟨blocks, size, entries⟩ := storable
  have product := Nat.mul_le_mul_left shape.prod bound
  exact ⟨blocks, Nat.lt_of_le_of_lt product size,
    Nat.lt_of_le_of_lt (Nat.mul_le_mul_right _ (Nat.mul_le_mul product product)) entries⟩

/-- The marked indices are the listed ones inside the range. -/
theorem getD_marks {size index : Nat} {indices : List Nat} (inside : index < size) :
    (marks size indices)[index]?.getD false = decide (index ∈ indices) := by
  suffices marked : ∀ current : Array Bool, index < current.size →
      (indices.foldl (fun current index => current.setIfInBounds index true) current)[index]?.getD
        false = (current[index]?.getD false || decide (index ∈ indices)) by
    simpa [marks, inside] using marked (Array.replicate size false) (by simpa using inside)
  induction indices with
  | nil => simp
  | cons other indices ih =>
      intro current inside
      rw [List.foldl_cons, ih _ (by simpa using inside)]
      by_cases same : other = index
      · subst same
        simp [inside]
      · simp [same, Ne.symm same]

/-- The numbers of the enumerated assignments mark the accepted blocks. -/
theorem getD_marks_expand {shape : List Nat} {condition : Condition} {index : Nat}
    (valid : condition.validate shape = .ok ()) (inside : index < shape.prod) :
    (marks shape.prod (condition.expand.map (number · shape)))[index]?.getD false =
      condition.accepts (levelsOf index shape) := by
  rw [getD_marks inside, Bool.eq_iff_iff, decide_eq_true_iff, List.mem_map]
  constructor
  · rintro ⟨assignment, member, rfl⟩
    have accepted := Condition.mem_expand.mp member
    rwa [levelsOf_number (Condition.within_of_accepts valid accepted)]
  · intro accepted
    exact ⟨_, Condition.mem_expand.mpr accepted, number_levelsOf inside⟩

/-- The accepted assignments of a register that can be counted have numbers. -/
theorem mapM_flatIndex_expand {shape : List Nat} {condition : Condition}
    (valid : condition.validate shape = .ok ()) (fits : shape.prod < Machine.wordRange) :
    condition.expand.mapM (fun assignment => flatIndex assignment shape) =
      .ok (condition.expand.map (number · shape)) :=
  mapM_eq_ok fun _ member => flatIndex_eq_ok
    (Condition.within_of_accepts valid (Condition.mem_expand.mp member)) fits.le

section Blocks

variable [Zero α] [One α]

/-- The operator on controls and target that acts as `matrix` on the target where the
condition accepts the levels of the controls, and as the identity elsewhere. -/
def controlled (shape : List Nat) (condition : Condition) (matrix : DenseMatrix α) :
    DenseMatrix α :=
  DenseMatrix.ofFn (shape.prod * matrix.rows) (shape.prod * matrix.rows) fun row col =>
    if row / matrix.rows = col / matrix.rows then
      if condition.accepts (levelsOf (row / matrix.rows) shape) = true then
        matrix.entry (row % matrix.rows) (col % matrix.rows)
      else if row = col then 1 else 0
    else 0

@[simp] theorem rows_controlled {shape : List Nat} {condition : Condition}
    {matrix : DenseMatrix α} :
    (controlled shape condition matrix).rows = shape.prod * matrix.rows := rfl

@[simp] theorem cols_controlled {shape : List Nat} {condition : Condition}
    {matrix : DenseMatrix α} :
    (controlled shape condition matrix).cols = shape.prod * matrix.rows := rfl

/-- Conditions that accept the same assignments have the same block matrices. -/
theorem controlled_congr {shape : List Nat} {first second : Condition} {matrix : DenseMatrix α}
    (same : ∀ assignment, first.accepts assignment = second.accepts assignment) :
    controlled shape first matrix = controlled shape second matrix := by
  simp only [controlled, same]

/-- Marking the enumerated assignments gives the block matrix of the condition. -/
theorem ofFn_marks_eq_controlled {shape : List Nat} {condition : Condition}
    {matrix : DenseMatrix α} (valid : condition.validate shape = .ok ())
    (square : matrix.cols = matrix.rows) :
    (DenseMatrix.ofFn (shape.prod * matrix.rows) (shape.prod * matrix.rows) fun row col =>
      if row / matrix.rows = col / matrix.rows then
        if (marks shape.prod (condition.expand.map (number · shape)))[row / matrix.rows]?.getD
            false = true then
          matrix.entry (row % matrix.rows) (if matrix.cols = 1 then 0 else col % matrix.rows)
        else if row = col then 1 else 0
      else 0) = controlled shape condition matrix := by
  refine DenseMatrix.ofFn_congr fun row col rowInside _ => ?_
  have block : row / matrix.rows < shape.prod :=
    Nat.div_lt_of_lt_mul (by rwa [Nat.mul_comm])
  have column : (if matrix.cols = 1 then 0 else col % matrix.rows) = col % matrix.rows := by
    split
    case isTrue single => rw [← square, single, Nat.mod_one]
    case isFalse => rfl
  rw [getD_marks_expand valid block, column]

/-- **The checked embedding.** For a valid condition and a square matrix it yields the
block matrix of the condition exactly when that can be stored. -/
theorem controlledEmbedding_eq_ok_iff {width : Nat} {shape : List Nat} {condition : Condition}
    {matrix result : DenseMatrix α} (positive : ∀ dimension ∈ shape, 0 < dimension)
    (valid : condition.validate shape = .ok ()) (square : matrix.cols = matrix.rows) :
    controlledEmbedding width shape condition matrix = .ok result ↔
      Storable width shape matrix.rows ∧ controlled shape condition matrix = result := by
  have fills : fillsBlock matrix = true := by simp [fillsBlock, square]
  rw [← ofFn_marks_eq_controlled valid square]
  simp only [controlledEmbedding, bind_eq_ok_iff, fills, Bool.not_true, Bool.and_false,
    Bool.false_eq_true, if_false]
  constructor
  · rintro ⟨blocks, counted, accepted, numbered, size, multiplied, ⟨⟩, reserved, built⟩
    obtain ⟨rfl, fits⟩ := Machine.eq_of_product_eq_ok counted
    obtain ⟨rfl, small⟩ := Machine.eq_of_checked multiplied
    rw [mapM_flatIndex_expand valid fits] at numbered
    cases numbered
    exact ⟨⟨fits, small, Machine.reserve_eq_ok_iff.mp reserved⟩, Except.ok.inj built⟩
  · rintro ⟨storable, rfl⟩
    exact ⟨_, Machine.product_eq_ok positive storable.blocks, _,
      mapM_flatIndex_expand valid storable.blocks, _, Machine.mul_eq_ok storable.size, (),
      Machine.reserve_eq_ok_iff.mpr storable.entries, rfl⟩

/-- The checked construction gives the block matrix, if the condition fits the controls and the
result can be stored. -/
theorem controlledEmbedding_eq_ok {width : Nat} {shape : List Nat} {condition : Condition}
    {matrix : DenseMatrix α} (positive : ∀ dimension ∈ shape, 0 < dimension)
    (valid : condition.validate shape = .ok ()) (square : matrix.cols = matrix.rows)
    (storable : Storable width shape matrix.rows) :
    controlledEmbedding width shape condition matrix = .ok (controlled shape condition matrix) :=
  (controlledEmbedding_eq_ok_iff positive valid square).mpr ⟨storable, rfl⟩

/-- Blocks that cannot be stored fault for the reason that the register does. -/
theorem controlledEmbedding_eq_error {width : Nat} {shape : List Nat} {condition : Condition}
    {matrix : DenseMatrix α} (positive : ∀ dimension ∈ shape, 0 < dimension)
    (valid : condition.validate shape = .ok ()) (block : 0 < matrix.rows)
    (large : ¬Storable width shape matrix.rows) :
    controlledEmbedding width shape condition matrix =
      .error (if shape.prod * matrix.rows < Machine.wordRange then .capacity else .overflow) := by
  by_cases blocks : shape.prod < Machine.wordRange
  · simp only [controlledEmbedding, Machine.product_eq_ok positive blocks,
      mapM_flatIndex_expand valid blocks, bind, Except.bind]
    by_cases size : shape.prod * matrix.rows < Machine.wordRange
    · have full : ¬shape.prod * matrix.rows * (shape.prod * matrix.rows) * width <
          Machine.addressRange := fun entries => large ⟨blocks, size, entries⟩
      simp [Machine.mul_eq_ok size, Machine.reserve, full, size]
    · simp [Machine.mul, size]
  · have size : ¬shape.prod * matrix.rows < Machine.wordRange := fun size =>
      blocks (Nat.lt_of_le_of_lt (Nat.le_mul_of_pos_right _ block) size)
    rw [if_neg size, controlledEmbedding, Machine.product_eq_overflow positive blocks]
    rfl

/-- Rows and columns of different control levels meet in zero; within one block the condition
decides between the matrix and the identity. -/
theorem entry_controlled {shape : List Nat} {condition : Condition} {matrix : DenseMatrix α}
    {row col : Nat} (rowInside : row < shape.prod * matrix.rows)
    (colInside : col < shape.prod * matrix.rows) :
    (controlled shape condition matrix).entry row col =
      if row / matrix.rows = col / matrix.rows then
        if condition.accepts (levelsOf (row / matrix.rows) shape) = true then
          matrix.entry (row % matrix.rows) (col % matrix.rows)
        else if row = col then 1 else 0
      else 0 :=
  DenseMatrix.entry_ofFn rowInside colInside

/-- **Controls in front of controls.** They are the controls of the combined condition. -/
theorem controlled_controlled {outer inner : List Nat} {first second : Condition}
    {matrix : DenseMatrix α} (length : outer.length = first.width) :
    controlled outer first (controlled inner second matrix) =
      controlled (outer ++ inner) (first.combine second) matrix := by
  have sizes : outer.prod * (inner.prod * matrix.rows) =
      (outer ++ inner).prod * matrix.rows := by
    rw [List.prod_append, Nat.mul_assoc]
  refine DenseMatrix.ext_entry sizes sizes fun row col rowInside colInside => ?_
  rw [rows_controlled, rows_controlled] at rowInside
  rw [cols_controlled, rows_controlled] at colInside
  have positive : 0 < inner.prod * matrix.rows :=
    Nat.pos_of_ne_zero fun none => by simp [none] at rowInside
  have flatRow : row < (outer ++ inner).prod * matrix.rows := sizes ▸ rowInside
  have flatCol : col < (outer ++ inner).prod * matrix.rows := sizes ▸ colInside
  rw [entry_controlled rowInside colInside, entry_controlled flatRow flatCol, rows_controlled,
    entry_controlled (Nat.mod_lt _ positive) (Nat.mod_lt _ positive)]
  -- The levels of a block split into those of the outer and of the inner controls.
  have blocks (index : Nat) : index / matrix.rows / inner.prod =
      index / (inner.prod * matrix.rows) := by
    rw [Nat.div_div_eq_div_mul, Nat.mul_comm]
  have innerBlocks (index : Nat) : index % (inner.prod * matrix.rows) / matrix.rows =
      index / matrix.rows % inner.prod :=
      Nat.mod_mul_left_div_self index matrix.rows inner.prod
  have accepted : (first.combine second).accepts
      (levelsOf (row / matrix.rows) (outer ++ inner)) =
        (first.accepts (levelsOf (row / (inner.prod * matrix.rows)) outer) &&
          second.accepts (levelsOf (row % (inner.prod * matrix.rows) / matrix.rows) inner)) := by
    rw [levelsOf_append, Condition.accepts_combine (length_levelsOf.trans length), blocks,
      innerBlocks, levelsOf_mod]
  have sameBlock : row / matrix.rows = col / matrix.rows ↔
      row / (inner.prod * matrix.rows) = col / (inner.prod * matrix.rows) ∧
        row % (inner.prod * matrix.rows) / matrix.rows =
          col % (inner.prod * matrix.rows) / matrix.rows := by
    rw [Nat.ext_div_mod_iff inner.prod, blocks, blocks, innerBlocks, innerBlocks]
  have same : row = col ↔ row / (inner.prod * matrix.rows) = col / (inner.prod * matrix.rows) ∧
      row % (inner.prod * matrix.rows) = col % (inner.prod * matrix.rows) :=
    Nat.ext_div_mod_iff _ row col
  simp only [sameBlock, same, accepted, Bool.and_eq_true, Nat.mod_mul_left_mod]
  by_cases outerSame : row / (inner.prod * matrix.rows) = col / (inner.prod * matrix.rows)
  · simp only [outerSame, if_true, true_and]
    by_cases outerAccepts : first.accepts
        (levelsOf (col / (inner.prod * matrix.rows)) outer) = true
    · simp only [outerAccepts, if_true, true_and]
    · simp only [outerAccepts, if_false, false_and, Bool.false_eq_true]
      by_cases remainders : row % (inner.prod * matrix.rows) = col % (inner.prod * matrix.rows)
      · simp only [remainders, if_true]
      · simp only [remainders, if_false, ite_self]
  · simp only [outerSame, if_false, false_and]

end Blocks

end Register

end QuditCircuits
