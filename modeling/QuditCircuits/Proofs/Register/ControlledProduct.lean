import QuditCircuits.Proofs.Register.Embedded

/-!
# Controls, products and positions

Putting an operator under a condition keeps identities and products, and it does not
matter whether an operator is first put under the condition and then placed at positions
behind the controls, or first placed at the positions and then put under the condition.
-/

namespace QuditCircuits

open DenseMatrix

theorem Condition.accepts_nil {condition : Condition} (valid : condition.validate [] = .ok ()) :
    condition.accepts [] = true := by
  obtain ⟨term, member⟩ := List.exists_mem_of_ne_nil _ condition.conjunctions_ne_nil
  have fits := validate_eq_ok_iff.mp valid term member
  refine accepts_iff_exists.mpr ⟨term, member, ?_⟩
  obtain ⟨sets⟩ := term
  cases List.forall₂_nil_right_iff.mp fits
  rfl

namespace Register

variable {α : Type}

/-! ## Identities and products -/

/-- Without controls the operator always acts. -/
theorem controlled_nil [Zero α] [One α] {condition : Condition} {matrix : DenseMatrix α}
    (valid : condition.validate [] = .ok ()) (square : matrix.cols = matrix.rows) :
    controlled [] condition matrix = matrix := by
  refine ext_entry ?_ ?_ fun row col rowInside colInside => ?_
  · rw [rows_controlled, List.prod_nil, Nat.one_mul]
  · rw [cols_controlled, List.prod_nil, Nat.one_mul, square]
  · rw [rows_controlled, List.prod_nil, Nat.one_mul] at rowInside
    rw [cols_controlled, List.prod_nil, Nat.one_mul] at colInside
    rw [entry_controlled (by simpa using rowInside) (by simpa using colInside),
      Nat.div_eq_of_lt rowInside, Nat.div_eq_of_lt colInside, Nat.mod_eq_of_lt rowInside,
      Nat.mod_eq_of_lt colInside]
    simp [levelsOf, Condition.accepts_nil valid]

/-- Controls on the identity are the identity. -/
theorem controlled_identity [Zero α] [One α] {shape : List Nat} {condition : Condition}
    {size : Nat} :
    controlled shape condition (identity size : DenseMatrix α) = identity (shape.prod * size) := by
  refine ext_entry (by rfl) (by rfl) fun row col rowInside colInside => ?_
  have positive : 0 < size := Nat.pos_of_ne_zero fun none => by
    simp [none] at rowInside
  have same : row = col ↔ row / size = col / size ∧ row % size = col % size :=
    Nat.ext_div_mod_iff size row col
  have inner : (identity size : DenseMatrix α).entry (row % size) (col % size) =
      if row % size = col % size then 1 else 0 :=
    entry_ofFn (Nat.mod_lt _ positive) (Nat.mod_lt _ positive)
  have outer : (identity (shape.prod * size) : DenseMatrix α).entry row col =
      if row = col then 1 else 0 := entry_ofFn rowInside colInside
  rw [entry_controlled rowInside colInside, rows_identity, inner, outer]
  by_cases block : row / size = col / size
  · simp only [block, if_true, same, true_and, ite_self]
  · simp only [block, if_false, same, false_and]

/-- The block of an index that is given by block and offset. -/
theorem cell_div {block size offset : Nat} (small : offset < size) :
    (block * size + offset) / size = block := by
  rw [Nat.mul_comm, Nat.mul_add_div (Nat.zero_lt_of_lt small), Nat.div_eq_of_lt small,
    Nat.add_zero]

/-- Only the indices of one block take part in a sum that asks for it. -/
theorem sum_block [AddCommMonoid α] {blocks size block : Nat} (inside : block < blocks)
    (term : Nat → α) :
    ∑ index ∈ Finset.range (blocks * size), (if block = index / size then term index else 0) =
      ∑ offset ∈ Finset.range size, term (block * size + offset) := by
  rw [← Finset.sum_filter]
  refine Finset.sum_nbij' (· % size) (block * size + ·) ?_ ?_ ?_ ?_ ?_
  · intro index member
    have small := Finset.mem_range.mp (Finset.mem_filter.mp member).1
    exact Finset.mem_range.mpr (Nat.mod_lt _ (Nat.pos_of_ne_zero fun none => by
      simp [none] at small))
  · intro offset member
    have small := Finset.mem_range.mp member
    exact Finset.mem_filter.mpr
      ⟨Finset.mem_range.mpr (cell_lt inside small), (cell_div small).symm⟩
  · intro index member
    rw [(Finset.mem_filter.mp member).2, Nat.div_add_mod']
  · intro offset member
    exact Nat.mul_add_mod_of_lt (Finset.mem_range.mp member)
  · intro index member
    rw [(Finset.mem_filter.mp member).2, Nat.div_add_mod']

section Blocks

variable [Zero α] [One α] {shape : List Nat} {condition : Condition} {matrix : DenseMatrix α}
  {row col : Nat}

/-- In a row whose control levels are accepted stand the entries of the matrix. -/
theorem entry_controlled_of_accepts (rowInside : row < shape.prod * matrix.rows)
    (colInside : col < shape.prod * matrix.rows)
    (accepted : condition.accepts (levelsOf (row / matrix.rows) shape) = true) :
    (controlled shape condition matrix).entry row col =
      if row / matrix.rows = col / matrix.rows then
        matrix.entry (row % matrix.rows) (col % matrix.rows)
      else 0 := by
  rw [entry_controlled rowInside colInside, if_pos accepted]

/-- In a row whose control levels are rejected stand the entries of the identity. -/
theorem entry_controlled_of_rejects (rowInside : row < shape.prod * matrix.rows)
    (colInside : col < shape.prod * matrix.rows)
    (rejected : ¬condition.accepts (levelsOf (row / matrix.rows) shape) = true) :
    (controlled shape condition matrix).entry row col = if row = col then 1 else 0 := by
  rw [entry_controlled rowInside colInside, if_neg rejected]
  by_cases same : row = col
  · rw [if_pos (congrArg (· / matrix.rows) same)]
  · rw [if_neg same, ite_self]

/-- A condition that is never met leaves the identity. -/
theorem controlled_of_rejects (rejects : ∀ assignment, condition.accepts assignment = false) :
    controlled shape condition matrix = identity (shape.prod * matrix.rows) := by
  refine ext_entry (by rfl) (by rfl) fun row col rowInside colInside => ?_
  have unmet : ¬condition.accepts (levelsOf (row / matrix.rows) shape) = true := by
    rw [rejects]
    exact Bool.false_ne_true
  have inside : (identity (shape.prod * matrix.rows) : DenseMatrix α).entry row col =
      if row = col then 1 else 0 := entry_ofFn rowInside colInside
  rw [entry_controlled_of_rejects rowInside colInside unmet, inside]

end Blocks

section Rows

variable [NonAssocSemiring α] {shape : List Nat} {condition : Condition} {matrix : DenseMatrix α}
  {row : Nat}

/-- A row that the condition accepts takes the values of its block with the matrix. -/
theorem sum_controlled_of_accepts (rowInside : row < shape.prod * matrix.rows)
    (accepted : condition.accepts (levelsOf (row / matrix.rows) shape) = true) (value : Nat → α) :
    ∑ inner ∈ Finset.range (shape.prod * matrix.rows),
        (controlled shape condition matrix).entry row inner * value inner =
      ∑ offset ∈ Finset.range matrix.rows, matrix.entry (row % matrix.rows) offset *
        value (row / matrix.rows * matrix.rows + offset) := by
  have block : row / matrix.rows < shape.prod := Nat.div_lt_of_lt_mul (by rwa [Nat.mul_comm])
  have terms : ∀ inner ∈ Finset.range (shape.prod * matrix.rows),
      (controlled shape condition matrix).entry row inner * value inner =
        if row / matrix.rows = inner / matrix.rows then
          matrix.entry (row % matrix.rows) (inner % matrix.rows) * value inner
        else 0 := by
    intro inner member
    rw [entry_controlled_of_accepts rowInside (Finset.mem_range.mp member) accepted, ite_mul,
      zero_mul]
  rw [Finset.sum_congr rfl terms, sum_block block]
  refine Finset.sum_congr rfl fun offset member => ?_
  rw [Nat.mul_add_mod_of_lt (Finset.mem_range.mp member)]

/-- A row that the condition rejects takes one value as it is. -/
theorem sum_controlled_of_rejects (rowInside : row < shape.prod * matrix.rows)
    (rejected : ¬condition.accepts (levelsOf (row / matrix.rows) shape) = true)
    (value : Nat → α) :
    ∑ inner ∈ Finset.range (shape.prod * matrix.rows),
        (controlled shape condition matrix).entry row inner * value inner = value row := by
  have terms : ∀ inner ∈ Finset.range (shape.prod * matrix.rows),
      (controlled shape condition matrix).entry row inner * value inner =
        if row = inner then value inner else 0 := by
    intro inner member
    rw [entry_controlled_of_rejects rowInside (Finset.mem_range.mp member) rejected, ite_mul,
      one_mul, zero_mul]
  rw [Finset.sum_congr rfl terms, Finset.sum_ite_eq, if_pos (Finset.mem_range.mpr rowInside)]

end Rows

/-- **Products under a condition.** -/
theorem controlled_mul [NonAssocSemiring α] {shape : List Nat} {condition : Condition}
    {first second : DenseMatrix α} (square : first.cols = first.rows)
    (meets : second.rows = first.rows) (secondSquare : second.cols = first.rows) :
    controlled shape condition (mul first second) =
      mul (controlled shape condition first) (controlled shape condition second) := by
  refine ext_entry (by rfl) (by simp [meets]) fun row col rowInside colInside => ?_
  have rowSmall : row < shape.prod * first.rows := rowInside
  have colSmall : col < shape.prod * first.rows := colInside
  have colSecond : col < shape.prod * second.rows := meets ▸ colSmall
  have positive : 0 < first.rows := Nat.pos_of_ne_zero fun none => by
    simp [none] at rowSmall
  have block : row / first.rows < shape.prod := Nat.div_lt_of_lt_mul (by rwa [Nat.mul_comm])
  rw [entry_mul rowSmall colSecond, cols_controlled]
  by_cases accepted : condition.accepts (levelsOf (row / first.rows) shape) = true
  · have inBlock : ∀ offset ∈ Finset.range first.rows,
        first.entry (row % first.rows) offset *
            (controlled shape condition second).entry (row / first.rows * first.rows + offset) col =
          if row / first.rows = col / first.rows then
            first.entry (row % first.rows) offset * second.entry offset (col % first.rows)
          else 0 := by
      intro offset member
      have small := Finset.mem_range.mp member
      have inside : row / first.rows * first.rows + offset < shape.prod * second.rows := by
        rw [meets]
        exact cell_lt block small
      rw [entry_controlled_of_accepts inside colSecond (by rwa [meets, cell_div small]), meets,
        cell_div small, Nat.mul_add_mod_of_lt small, mul_ite, mul_zero]
    rw [sum_controlled_of_accepts rowSmall accepted, Finset.sum_congr rfl inBlock]
    refine (entry_controlled_of_accepts rowInside colInside accepted).trans ?_
    rw [rows_mul,
      entry_mul (Nat.mod_lt _ positive) (by rw [secondSquare]; exact Nat.mod_lt _ positive),
      square]
    by_cases same : row / first.rows = col / first.rows
    · simp only [same, if_true]
    · simp only [same, if_false, Finset.sum_const_zero]
  · rw [sum_controlled_of_rejects rowSmall accepted]
    exact (entry_controlled_of_rejects rowInside colInside accepted).trans
      (entry_controlled_of_rejects (meets ▸ rowSmall) colSecond (by rwa [meets])).symm

/-! ## Positions behind controls -/

/-- The positions of controls and of others behind them. -/
def behind (count : Nat) (positions : List Nat) : List Nat :=
  List.range count ++ positions.map (count + ·)

/-- The positions behind the controls are those of the controls and the shifted ones. -/
theorem mem_behind {count : Nat} {positions : List Nat} {index : Nat} :
    index ∈ behind count positions ↔
      index < count ∨ ∃ position ∈ positions, count + position = index := by
  rw [behind, List.mem_append, List.mem_range, List.mem_map]

theorem nodup_behind {count : Nat} {positions : List Nat} (distinct : positions.Nodup) :
    (behind count positions).Nodup := by
  refine List.nodup_append.mpr ⟨List.nodup_range, distinct.map fun _ _ => Nat.add_left_cancel, ?_⟩
  rintro index low _ high rfl
  obtain ⟨position, _, rfl⟩ := List.mem_map.mp high
  exact absurd (List.mem_range.mp low) (by omega)

/-- Behind the controls their items are picked first, then the picked ones of the others. -/
theorem pick_behind {count : Nat} {positions first second : List Nat}
    (length : first.length = count) :
    pick (first ++ second) (behind count positions) = first ++ pick second positions := by
  subst length
  have front : pick (first ++ second) (List.range first.length) = first := by
    refine List.ext_getElem (by simp) fun index _ small => ?_
    simp [pick, List.getElem?_append_left small, small]
  have back : pick (first ++ second) (positions.map (first.length + ·)) =
      pick second positions := by
    simp [pick, List.getElem?_append_right]
  rw [behind, pick, List.map_append]
  exact congrArg₂ (· ++ ·) front back

/-- Controls in front are all picked, so that only the other qudits count outside. -/
theorem sameOutside_behind {count size : Nat} {positions first second other third : List Nat}
    (length : first.length = count) (otherLength : other.length = count) :
    SameOutside (count + size) (behind count positions) (first ++ second) (other ++ third) ↔
      SameOutside size positions second third := by
  subst length
  have back (levels : List Nat) (index : Nat) :
      (first ++ levels).getD (first.length + index) 0 = levels.getD index 0 := by
    simp [List.getD, List.getElem?_append_right]
  have otherBack (levels : List Nat) (index : Nat) :
      (other ++ levels).getD (first.length + index) 0 = levels.getD index 0 := by
    simp [List.getD, List.getElem?_append_right, otherLength]
  constructor
  · intro same index small outside
    have here := same (first.length + index) (by omega) fun member => by
      rcases mem_behind.mp member with low | ⟨position, listed, equal⟩
      · omega
      · exact outside (Nat.add_left_cancel equal ▸ listed)
    rwa [back, otherBack] at here
  · intro same index small outside
    have high : first.length ≤ index :=
      Nat.le_of_not_lt fun low => outside (mem_behind.mpr (.inl low))
    obtain ⟨position, rfl⟩ := Nat.exists_eq_add_of_le high
    rw [back, otherBack]
    exact same position (by omega) fun listed =>
      outside (mem_behind.mpr (.inr ⟨position, listed, rfl⟩))

/-- Basis states are equal if they agree at some positions and elsewhere. -/
theorem eq_iff_sameOutside {row col : Nat} {positions shape : List Nat}
    (positive : ∀ dimension ∈ shape, 0 < dimension) (distinct : positions.Nodup)
    (inside : ∀ position ∈ positions, position < shape.length) (rowInside : row < shape.prod)
    (colInside : col < shape.prod) :
    row = col ↔ SameOutside shape.length positions (levelsOf row shape) (levelsOf col shape) ∧
      number (pick (levelsOf row shape) positions) (pick shape positions) =
        number (pick (levelsOf col shape) positions) (pick shape positions) := by
  have colWithin : Within (levelsOf col shape) shape := within_levelsOf positive
  have small := number_lt (colWithin.pick inside)
  have itself : rowAt col (number (pick (levelsOf col shape) positions) (pick shape positions))
      positions shape = col :=
    (rowAt_eq_iff positive distinct inside colInside small).mpr ⟨fun _ _ _ => rfl, rfl⟩
  rw [← rowAt_eq_iff positive distinct inside rowInside small, itself, eq_comm]

/-- The qudits at the controls and behind them have the number of a block and an offset. -/
theorem number_pick_behind {controls shape positions : List Nat} {index : Nat}
    (block : index / shape.prod < controls.prod) :
    number (pick (levelsOf index (controls ++ shape)) (behind controls.length positions))
        (pick (controls ++ shape) (behind controls.length positions)) =
      index / shape.prod * (pick shape positions).prod +
        number (pick (levelsOf index shape) positions) (pick shape positions) := by
  rw [levelsOf_append, pick_behind length_levelsOf, pick_behind rfl,
    number_append length_levelsOf, number_levelsOf block]

/-- The levels of two rows agree outside controls and positions if those of the register behind
the controls agree outside the positions. -/
theorem sameOutside_levelsOf_behind {controls shape positions : List Nat} {row col : Nat} :
    SameOutside (controls ++ shape).length (behind controls.length positions)
        (levelsOf row (controls ++ shape)) (levelsOf col (controls ++ shape)) ↔
      SameOutside shape.length positions (levelsOf row shape) (levelsOf col shape) := by
  rw [levelsOf_append, levelsOf_append, List.length_append,
    sameOutside_behind length_levelsOf length_levelsOf]

/-- **Controls in front of placed operators.** Placing a controlled operator at the
controls and at positions behind them is controlling the placed operator. -/
theorem lifted_controlled [Zero α] [One α] {controls shape positions : List Nat}
    {condition : Condition} {matrix : DenseMatrix α}
    (positive : ∀ dimension ∈ shape, 0 < dimension) (distinct : positions.Nodup)
    (inside : ∀ position ∈ positions, position < shape.length)
    (rows : matrix.rows = (pick shape positions).prod) :
    lifted (controlled controls condition matrix) (behind controls.length positions)
        (controls ++ shape) =
      controlled controls condition (lifted matrix positions shape) := by
  have sizes : (controls ++ shape).prod = controls.prod * shape.prod := List.prod_append
  refine ext_entry sizes sizes fun row col rowInside colInside => ?_
  rw [rows_lifted] at rowInside
  rw [cols_lifted] at colInside
  have rowSmall : row < controls.prod * shape.prod := sizes ▸ rowInside
  have colSmall : col < controls.prod * shape.prod := sizes ▸ colInside
  have size : 0 < shape.prod := List.prod_pos_iff_forall_pos_nat.mpr positive
  have rowBlock : row / shape.prod < controls.prod := Nat.div_lt_of_lt_mul (by rwa [Nat.mul_comm])
  have colBlock : col / shape.prod < controls.prod := Nat.div_lt_of_lt_mul (by rwa [Nat.mul_comm])
  have within (index : Nat) : Within (levelsOf index shape) shape := within_levelsOf positive
  have picked (index : Nat) :
      number (pick (levelsOf index shape) positions) (pick shape positions) < matrix.rows :=
    rows ▸ number_lt ((within index).pick inside)
  have numbers (index : Nat) (block : index / shape.prod < controls.prod) :
      number (pick (levelsOf index (controls ++ shape)) (behind controls.length positions))
          (pick (controls ++ shape) (behind controls.length positions)) =
        index / shape.prod * matrix.rows +
          number (pick (levelsOf index shape) positions) (pick shape positions) := by
    rw [number_pick_behind block, rows]
  rw [entry_lifted rowInside colInside, numbers row rowBlock, numbers col colBlock,
    entry_controlled (cell_lt rowBlock (picked row)) (cell_lt colBlock (picked col)),
    cell_div (picked row), cell_div (picked col), Nat.mul_add_mod_of_lt (picked row),
    Nat.mul_add_mod_of_lt (picked col), if_congr sameOutside_levelsOf_behind rfl rfl,
    entry_controlled rowSmall colSmall, rows_lifted,
    entry_lifted (Nat.mod_lt _ size) (Nat.mod_lt _ size), levelsOf_mod, levelsOf_mod]
  have remainders : row % shape.prod = col % shape.prod ↔
      SameOutside shape.length positions (levelsOf row shape) (levelsOf col shape) ∧
        number (pick (levelsOf row shape) positions) (pick shape positions) =
          number (pick (levelsOf col shape) positions) (pick shape positions) := by
    rw [eq_iff_sameOutside positive distinct inside (Nat.mod_lt _ size) (Nat.mod_lt _ size),
      levelsOf_mod, levelsOf_mod]
  have same : row = col ↔ row / shape.prod = col / shape.prod ∧
      row % shape.prod = col % shape.prod :=
    Nat.ext_div_mod_iff _ row col
  by_cases block : row / shape.prod = col / shape.prod
  · by_cases accepted : condition.accepts (levelsOf (col / shape.prod) controls) = true
    · simp only [block, accepted, if_true]
    · simp only [block, accepted, if_true, if_false, Bool.false_eq_true, same, remainders,
        true_and, Nat.add_left_cancel_iff, ite_and]
  · simp only [block, if_false, ite_self]

/-- The checked embedding of a controlled operator behind its controls. -/
theorem embed_controlled [AddCommMonoid α] [One α] {width : Nat}
    {controls shape positions : List Nat} {condition : Condition} {matrix result : DenseMatrix α}
    (positive : ∀ dimension ∈ controls ++ shape, 0 < dimension) (distinct : positions.Nodup)
    (inside : ∀ position ∈ positions, position < shape.length)
    (rows : matrix.rows = (pick shape positions).prod)
    (cols : matrix.cols = (pick shape positions).prod)
    (storable : Storable width (controls ++ shape) 1)
    (embedded : embed width matrix positions shape = .ok result) :
    embed width (controlled controls condition matrix) (behind controls.length positions)
      (controls ++ shape) = .ok (controlled controls condition result) := by
  have shapePositive := (List.forall_mem_append.mp positive).2
  obtain ⟨_, rfl⟩ := (embed_eq_ok_iff shapePositive distinct inside rows cols).mp embedded
  have size : controls.prod * matrix.rows =
      (pick (controls ++ shape) (behind controls.length positions)).prod := by
    rw [pick_behind rfl, List.prod_append, rows]
  refine (embed_eq_ok_iff positive (nodup_behind distinct) (fun position member => ?_) size
    size).mpr ⟨storable, lifted_controlled shapePositive distinct inside rows⟩
  rw [List.length_append]
  rcases mem_behind.mp member with low | ⟨other, listed, rfl⟩
  · exact Nat.lt_add_right _ low
  · exact Nat.add_lt_add_left (inside other listed) _

end Register

end QuditCircuits
