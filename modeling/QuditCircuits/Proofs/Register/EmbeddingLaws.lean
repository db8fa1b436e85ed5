import QuditCircuits.Proofs.Register.EmbeddedProduct

/-!
# Laws of the checked embedding

The checked embedding of a matrix is read entry by entry with the conversions of basis states that
the embedding itself uses: an entry is that of the matrix at the numbers of the levels at the
positions (`subIndex`), in the order in which these are listed. Because it yields the lifted
operator (`embed_square`), it keeps identities and products, and embeddings at positions that are
apart commute. Rows with the entry zero may be passed over on the way (`embedSparse_eq`).
-/

namespace QuditCircuits.Register

open DenseMatrix

/-- The number of the levels that a basis state has at some positions, as it is computed. -/
def subIndex (index : Nat) (positions shape : List Nat) : Except Fault Nat := do
  flatIndex (← Machine.select (← digits index shape) positions) (← Machine.select shape positions)

section Positions

variable {α : Type} {width : Nat} {positions shape : List Nat}
  (positive : ∀ dimension ∈ shape, 0 < dimension) (distinct : positions.Nodup)
  (inside : ∀ position ∈ positions, position < shape.length)
  (storable : Storable width shape 1)
include positive distinct inside storable

/-- The number of the picked levels is computed without a fault, and is a row of the matrix. -/
theorem subIndex_eq_ok (index : Nat) :
    subIndex index positions shape =
        .ok (number (pick (levelsOf index shape) positions) (pick shape positions)) ∧
      number (pick (levelsOf index shape) positions) (pick shape positions) <
        (pick shape positions).prod := by
  have within : Within (pick (levelsOf index shape) positions) (pick shape positions) :=
    (within_levelsOf positive).pick inside
  have fits : (pick shape positions).prod ≤ Machine.wordRange :=
    (prod_pick_le positive distinct inside).trans (Nat.le_of_lt storable.blocks)
  have levels : Machine.select (levelsOf index shape) positions =
      .ok (pick (levelsOf index shape) positions) := Machine.select_eq_ok 0 (by simpa using inside)
  have dimensions : Machine.select shape positions = .ok (pick shape positions) :=
    Machine.select_eq_ok 0 inside
  refine ⟨?_, number_lt within⟩
  simp only [subIndex, digits_eq_ok positive, levels, dimensions, bind, Except.bind]
  exact flatIndex_eq_ok within fits

/-- A matrix of the size of the qudits at the positions is embedded as the lifted operator. -/
theorem embed_square [AddCommMonoid α] {matrix : DenseMatrix α}
    (rows : matrix.rows = (pick shape positions).prod)
    (cols : matrix.cols = (pick shape positions).prod) :
    embed width matrix positions shape = .ok (lifted matrix positions shape) :=
  (embed_eq_ok_iff positive distinct inside rows cols).mpr ⟨storable, rfl⟩

/-- The entries of the lifted operator, read with the conversions that are computed. -/
theorem get_lifted [Zero α] {matrix : DenseMatrix α}
    (rows : matrix.rows = (pick shape positions).prod)
    (cols : matrix.cols = (pick shape positions).prod) {row col : Nat}
    (rowInside : row < shape.prod) (colInside : col < shape.prod) :
    ∃ rowLevels colLevels subRow subCol value,
      digits row shape = .ok rowLevels ∧ digits col shape = .ok colLevels ∧
      subIndex row positions shape = .ok subRow ∧ subIndex col positions shape = .ok subCol ∧
      matrix.get subRow subCol = .ok value ∧
      (lifted matrix positions shape).get row col =
        .ok (if SameOutside shape.length positions rowLevels colLevels then value else 0) := by
  obtain ⟨rowIndex, rowSmall⟩ := subIndex_eq_ok positive distinct inside storable row
  obtain ⟨colIndex, colSmall⟩ := subIndex_eq_ok positive distinct inside storable col
  refine ⟨_, _, _, _, _, digits_eq_ok positive, digits_eq_ok positive, rowIndex, colIndex,
    get_eq_ok_entry (rows ▸ rowSmall) (cols ▸ colSmall), ?_⟩
  have present : (lifted matrix positions shape).get row col = .ok _ :=
    get_eq_ok_entry rowInside colInside
  rw [present, entry_lifted rowInside colInside]

end Positions

/-! ## Entries that are zero -/

section Sparse

variable {α : Type}

/-- A column of an embedded operator, where rows with the entry zero are passed over. -/
def embedColumnSparse [Zero α] [Add α] [DecidableEq α] (matrix : DenseMatrix α)
    (positions shape subShape : List Nat) (total subTotal column : Nat) :
    Except Fault (Array α) := do
  let levels ← digits column shape
  let subColumn ← flatIndex (← Machine.select levels positions) subShape
  (List.range subTotal).foldlM
    (fun current subRow => do
      let value ← matrix.get subRow subColumn
      if value = 0 then return current
      else
        let rowLevels ← overwrite levels (← digits subRow subShape) positions
        addAt current (← flatIndex rowLevels shape) value)
    (Array.replicate total 0)

/-- The embedding with entries that are zero passed over. -/
def embedSparse [Zero α] [Add α] [DecidableEq α] (width : Nat) (matrix : DenseMatrix α)
    (positions shape : List Nat) : Except Fault (DenseMatrix α) := do
  let total ← Machine.product shape
  let subShape ← Machine.select shape positions
  let subTotal ← Machine.product subShape
  Machine.reserve (total * total) width
  let columns ← (List.range total).mapM
    (embedColumnSparse matrix positions shape subShape total subTotal)
  return ofColumns total columns.toArray

/-- Skipping a zero is adding it. -/
theorem addAt_zero [AddZeroClass α] {column : Array α} {row : Nat} (inside : row < column.size) :
    addAt column row 0 = .ok column := by
  rw [addAt, dif_pos inside, add_zero, Array.set_getElem_self]

/-- Steps that agree on columns of one size, and keep the size, lead to the same result. -/
theorem foldlM_congr_size {ι : Type} {size : Nat} {items : List ι}
    {first second : Array α → ι → Except Fault (Array α)}
    (same : ∀ item ∈ items, ∀ current : Array α, current.size = size →
      first current item = second current item ∧
        ∃ next, second current item = .ok next ∧ next.size = size)
    {start : Array α} (sized : start.size = size) :
    items.foldlM first start = items.foldlM second start := by
  induction items generalizing start with
  | nil => rfl
  | cons item items ih =>
      obtain ⟨equal, next, made, nextSize⟩ := same item List.mem_cons_self start sized
      rw [List.foldlM_cons, List.foldlM_cons, equal, made]
      exact ih (fun other member => same other (List.mem_cons_of_mem _ member)) nextSize

variable [AddZeroClass α] [DecidableEq α] {matrix : DenseMatrix α} {positions shape : List Nat}
  (positive : ∀ dimension ∈ shape, 0 < dimension)
  (inside : ∀ position ∈ positions, position < shape.length)
  (rows : matrix.rows = (pick shape positions).prod)
  (cols : matrix.cols = (pick shape positions).prod)
include positive inside rows cols

/-- A row with the entry zero adds nothing to a column, so it may be passed over. -/
theorem embedColumnSparse_eq (fits : shape.prod < Machine.wordRange)
    (subFits : (pick shape positions).prod < Machine.wordRange) (column : Nat) :
    embedColumnSparse matrix positions shape (pick shape positions) shape.prod
        (pick shape positions).prod column =
      embedColumn matrix positions shape (pick shape positions) shape.prod
        (pick shape positions).prod column := by
  have subWithin : Within (pick (levelsOf column shape) positions) (pick shape positions) :=
    (within_levelsOf positive).pick inside
  have selected : Machine.select (levelsOf column shape) positions =
      .ok (pick (levelsOf column shape) positions) := Machine.select_eq_ok 0 (by simpa using inside)
  simp only [embedColumnSparse, embedColumn, digits_eq_ok positive, selected,
    flatIndex_eq_ok subWithin subFits.le, bind, Except.bind]
  refine foldlM_congr_size (fun subRow member current sized => ?_) Array.size_replicate
  have small : subRow < matrix.rows := rows ▸ List.mem_range.mp member
  have subColumn := cols ▸ number_lt subWithin
  have added := addRow_eq_addAt positive fits inside small subColumn column current
  have here : rowAt column subRow positions shape < current.size :=
    sized ▸ rowAt_lt positive inside
  obtain ⟨next, made, nextSize, -⟩ := addAt_eq_ok here
    (matrix.entry subRow (number (pick (levelsOf column shape) positions) (pick shape positions)))
  refine ⟨?_, next, added.trans made, nextSize.trans sized⟩
  rw [get_eq_ok_entry small subColumn] at added ⊢
  dsimp only
  split
  case isTrue zero =>
    have kept := (congrArg (addAt current _) zero).trans (addAt_zero here)
    exact (added.trans kept).symm
  case isFalse => rfl

/-- Passing over entries that are zero makes no difference to an embedding that can be stored. -/
theorem embedSparse_eq {width : Nat} (distinct : positions.Nodup)
    (storable : Storable width shape 1) :
    embedSparse width matrix positions shape = embed width matrix positions shape := by
  have fits : shape.prod < Machine.wordRange := storable.blocks
  have subFits : (pick shape positions).prod < Machine.wordRange :=
    Nat.lt_of_le_of_lt (prod_pick_le positive distinct inside) fits
  have selected : Machine.select shape positions = .ok (pick shape positions) :=
    Machine.select_eq_ok 0 inside
  have columns := funext (embedColumnSparse_eq positive inside rows cols fits subFits)
  simp only [embedSparse, embed, Machine.product_eq_ok positive fits, selected,
    Machine.product_eq_ok (pos_of_mem_pick positive inside) subFits, bind, Except.bind, columns]

end Sparse

/-- **The checked embedding acts at its positions.** Whenever the matrix of a register without empty
qudits can be stored, a matrix of the size of the qudits at different positions is embedded as the
matrix that has, where two basis states agree away from the positions, the entry at the numbers of
their levels at the positions, and zero elsewhere, whether or not entries that are zero are passed
over. So identities and products are kept, and embeddings at positions that are apart commute. -/
theorem embedding_acts_at_positions {α : Type} [CommSemiring α] [DecidableEq α] {width : Nat}
    {shape : List Nat} (positive : ∀ dimension ∈ shape, 0 < dimension)
    (storable : Storable width shape 1) {positions : List Nat} (distinct : positions.Nodup)
    (inside : ∀ position ∈ positions, position < shape.length) :
    (∀ matrix : DenseMatrix α, matrix.rows = (pick shape positions).prod →
      matrix.cols = (pick shape positions).prod →
      ∃ result, embed width matrix positions shape = .ok result ∧
        embedSparse width matrix positions shape = .ok result ∧
        result.rows = shape.prod ∧ result.cols = shape.prod ∧
        ∀ row < shape.prod, ∀ col < shape.prod, ∃ rowLevels colLevels subRow subCol value,
          digits row shape = .ok rowLevels ∧ digits col shape = .ok colLevels ∧
          subIndex row positions shape = .ok subRow ∧
          subIndex col positions shape = .ok subCol ∧ matrix.get subRow subCol = .ok value ∧
          result.get row col =
            .ok (if SameOutside shape.length positions rowLevels colLevels then value else 0)) ∧
    embed width (identity (pick shape positions).prod : DenseMatrix α) positions shape =
      .ok (identity shape.prod) ∧
    (∀ first second : DenseMatrix α, first.rows = (pick shape positions).prod →
      first.cols = (pick shape positions).prod → second.rows = (pick shape positions).prod →
      second.cols = (pick shape positions).prod →
      ∃ product left right result, first.mul? second = .ok product ∧
        embed width first positions shape = .ok left ∧
        embed width second positions shape = .ok right ∧
        left.mul? right = .ok result ∧ embed width product positions shape = .ok result) ∧
    ∀ others : List Nat, others.Nodup → (∀ position ∈ others, position < shape.length) →
      List.Disjoint positions others → ∀ first second : DenseMatrix α,
      first.rows = (pick shape positions).prod → first.cols = (pick shape positions).prod →
      second.rows = (pick shape others).prod → second.cols = (pick shape others).prod →
      ∃ left right result, embed width first positions shape = .ok left ∧
        embed width second others shape = .ok right ∧
        left.mul? right = .ok result ∧ right.mul? left = .ok result := by
  refine ⟨?_, ?_, ?_, ?_⟩
  · intro matrix rows cols
    have embedded := embed_square positive distinct inside storable rows cols
    refine ⟨_, embedded, ?_, rfl, rfl, ?_⟩
    · exact (embedSparse_eq positive inside rows cols distinct storable).trans embedded
    · intro row rowInside col colInside
      exact get_lifted positive distinct inside storable rows cols rowInside colInside
  · rw [embed_square positive distinct inside storable rfl rfl,
      lifted_identity positive distinct inside]
  · intro first second firstRows firstCols secondRows secondCols
    refine ⟨_, _, _, _, if_pos (firstCols.trans secondRows.symm),
      embed_square positive distinct inside storable firstRows firstCols,
      embed_square positive distinct inside storable secondRows secondCols, if_pos rfl, ?_⟩
    rw [embed_square positive distinct inside storable
        (rows_mul.trans firstRows) (cols_mul.trans secondCols),
      lifted_mul positive distinct inside firstRows firstCols secondCols]
  · intro others othersDistinct othersInside apart first second firstRows firstCols secondRows
      secondCols
    refine ⟨_, _, _, embed_square positive distinct inside storable firstRows firstCols,
      embed_square positive othersDistinct othersInside storable secondRows secondCols,
      if_pos rfl, ?_⟩
    rw [mul_lifted_comm positive distinct inside apart othersDistinct othersInside]
    exact if_pos rfl

/-- The last and the first of three qudits, in this order, the middle one with three levels. -/
theorem embedding_acts_at_positions_reversed :
    let matrix : DenseMatrix ℤ := .ofFn 4 4 fun row col => 10 * row + col
    let middle : DenseMatrix ℤ := .ofFn 3 3 fun row col => row - 2 * col
    ∃ result, embed amplitudeWidth matrix [2, 0] [2, 3, 2] = .ok result ∧
      result.get 6 1 = .ok 12 ∧ result.get 6 3 = .ok 0 ∧
      ∃ other product, embed amplitudeWidth middle [1] [2, 3, 2] = .ok other ∧
        result.mul? other = .ok product ∧ other.mul? result = .ok product := by
  intro matrix middle
  have positive : ∀ dimension ∈ [2, 3, 2], 0 < dimension := by decide
  have storable : Storable amplitudeWidth [2, 3, 2] 1 := ⟨by decide, by decide, by decide⟩
  have distinct : [2, 0].Nodup := by decide
  have inside : ∀ position ∈ [2, 0], position < [2, 3, 2].length := by decide
  obtain ⟨entries, -, -, commute⟩ :=
    embedding_acts_at_positions (α := ℤ) positive storable distinct inside
  obtain ⟨result, embedded, -, -, -, levels⟩ := entries matrix rfl rfl
  obtain ⟨left, other, product, leftEmbedded, otherEmbedded, forward, backward⟩ :=
    commute [1] (by decide) (by decide) (by simp) matrix middle rfl rfl rfl rfl
  cases embedded.symm.trans leftEmbedded
  refine ⟨result, embedded, ?_, ?_, other, product, otherEmbedded, forward, backward⟩
  · obtain ⟨_, _, _, _, _, ⟨⟩, ⟨⟩, ⟨⟩, ⟨⟩, ⟨⟩, present⟩ := levels 6 (by decide) 1 (by decide)
    exact present
  · obtain ⟨_, _, _, _, _, ⟨⟩, ⟨⟩, ⟨⟩, ⟨⟩, ⟨⟩, present⟩ := levels 6 (by decide) 3 (by decide)
    exact present

end QuditCircuits.Register
