import QuditCircuits.Proofs.Register.ControlledProduct

/-!
# Products of operators at positions

Placing operators at the same positions of a register keeps identities and products
(`lifted_mul`), and operators at positions that are apart commute (`mul_lifted_comm`). An
operator that is placed on some qudits of a register, which are themselves placed in a larger
one, is placed at positions of positions (`lifted_placed`). Where a controlled operator is
placed, its condition is asked of the levels at the positions of the controls
(`entry_lifted_controlled`).
-/

namespace QuditCircuits.Register

open DenseMatrix

/-! ## Levels that agree elsewhere -/

theorem SameOutside.symm {count : Nat} {positions first second : List Nat}
    (same : SameOutside count positions first second) :
    SameOutside count positions second first :=
  fun index small outside => (same index small outside).symm

theorem SameOutside.trans {count : Nat} {positions first second third : List Nat}
    (left : SameOutside count positions first second)
    (right : SameOutside count positions second third) :
    SameOutside count positions first third :=
  fun index small outside => (left index small outside).trans (right index small outside)

/-- Levels that agree away from some positions are the same at others. -/
theorem SameOutside.pick_eq {count : Nat} {positions others first second : List Nat}
    (same : SameOutside count positions first second)
    (inside : ∀ position ∈ others, position < count) (apart : List.Disjoint positions others) :
    pick first others = pick second others :=
  List.map_congr_left fun position member =>
    same position (inside position member) fun listed => apart listed member

/-- Levels within a shape are determined by their number. -/
theorem Within.number_inj {first second shape : List Nat} (firstWithin : Within first shape)
    (secondWithin : Within second shape) :
    number first shape = number second shape ↔ first = second := by
  refine ⟨fun same => ?_, fun same => same ▸ rfl⟩
  rw [← levelsOf_number firstWithin, same, levelsOf_number secondWithin]

section Positions

variable {positions shape : List Nat} (positive : ∀ dimension ∈ shape, 0 < dimension)
  (distinct : positions.Nodup) (inside : ∀ position ∈ positions, position < shape.length)
include positive distinct inside

/-- The row that receives a row of a matrix has it at the positions, and agrees with the
column elsewhere. -/
theorem rowAt_spec (column : Nat) {subRow : Nat} (small : subRow < (pick shape positions).prod) :
    SameOutside shape.length positions (levelsOf (rowAt column subRow positions shape) shape)
        (levelsOf column shape) ∧
      number (pick (levelsOf (rowAt column subRow positions shape) shape) positions)
        (pick shape positions) = subRow :=
  (rowAt_eq_iff positive distinct inside (rowAt_lt positive inside) small).mp rfl

/-- The basis states that agree with a given one away from some positions are those with any
levels there. -/
theorem sum_sameOutside {α : Type} [AddCommMonoid α] {row : Nat} (term : Nat → α) :
    ∑ inner ∈ Finset.range shape.prod,
        (if SameOutside shape.length positions (levelsOf row shape) (levelsOf inner shape) then
          term inner
        else 0) =
      ∑ subRow ∈ Finset.range (pick shape positions).prod,
        term (rowAt row subRow positions shape) := by
  have small (inner : Nat) :
      number (pick (levelsOf inner shape) positions) (pick shape positions) <
        (pick shape positions).prod :=
    number_lt (Within.pick (within_levelsOf positive) inside)
  have back : ∀ inner ∈ (Finset.range shape.prod).filter fun inner =>
        SameOutside shape.length positions (levelsOf row shape) (levelsOf inner shape),
      rowAt row (number (pick (levelsOf inner shape) positions) (pick shape positions)) positions
        shape = inner := by
    intro inner member
    obtain ⟨below, same⟩ := Finset.mem_filter.mp member
    exact (rowAt_eq_iff positive distinct inside (Finset.mem_range.mp below) (small inner)).mpr
      ⟨same.symm, rfl⟩
  rw [← Finset.sum_filter]
  refine Finset.sum_nbij'
    (fun inner => number (pick (levelsOf inner shape) positions) (pick shape positions))
    (rowAt row · positions shape) ?_ ?_ back ?_ ?_
  · exact fun inner _ => Finset.mem_range.mpr (small inner)
  · intro subRow member
    have spec := rowAt_spec positive distinct inside row (Finset.mem_range.mp member)
    exact Finset.mem_filter.mpr
      ⟨Finset.mem_range.mpr (rowAt_lt positive inside), spec.1.symm⟩
  · intro subRow member
    exact (rowAt_spec positive distinct inside _ (Finset.mem_range.mp member)).2
  · exact fun inner member => by rw [back inner member]

/-- A row of a lifted matrix takes the values at the basis states that it reaches with the
matrix. -/
theorem sum_lifted {α : Type} [NonUnitalNonAssocSemiring α] {matrix : DenseMatrix α} {row : Nat}
    (rowInside : row < shape.prod) (value : Nat → α) :
    ∑ inner ∈ Finset.range shape.prod, (lifted matrix positions shape).entry row inner *
        value inner =
      ∑ subRow ∈ Finset.range (pick shape positions).prod,
        matrix.entry (number (pick (levelsOf row shape) positions) (pick shape positions)) subRow *
          value (rowAt row subRow positions shape) := by
  have terms : ∀ inner ∈ Finset.range shape.prod,
      (lifted matrix positions shape).entry row inner * value inner =
        if SameOutside shape.length positions (levelsOf row shape) (levelsOf inner shape) then
          matrix.entry (number (pick (levelsOf row shape) positions) (pick shape positions))
            (number (pick (levelsOf inner shape) positions) (pick shape positions)) * value inner
        else 0 := by
    intro inner member
    rw [entry_lifted rowInside (Finset.mem_range.mp member), ite_mul, zero_mul]
  rw [Finset.sum_congr rfl terms, sum_sameOutside positive distinct inside]
  refine Finset.sum_congr rfl fun subRow member => ?_
  rw [(rowAt_spec positive distinct inside _ (Finset.mem_range.mp member)).2]

/-- The embedded identity is the identity of the register. -/
theorem lifted_identity {α : Type} [Zero α] [One α] :
    lifted (identity (pick shape positions).prod : DenseMatrix α) positions shape =
      identity shape.prod := by
  refine ofFn_congr fun row col rowInside colInside => ?_
  have small (index : Nat) :
      number (pick (levelsOf index shape) positions) (pick shape positions) <
        (pick shape positions).prod :=
    number_lt (Within.pick (within_levelsOf positive) inside)
  rw [identity, entry_ofFn (small row) (small col),
    if_congr (eq_iff_sameOutside positive distinct inside rowInside colInside) rfl rfl, ite_and]

/-- **Products at positions.** -/
theorem lifted_mul {α : Type} [NonUnitalNonAssocSemiring α] {first second : DenseMatrix α}
    (firstRows : first.rows = (pick shape positions).prod)
    (firstCols : first.cols = (pick shape positions).prod)
    (secondCols : second.cols = (pick shape positions).prod) :
    lifted (mul first second) positions shape =
      mul (lifted first positions shape) (lifted second positions shape) := by
  refine ext_entry (by rfl) (by rfl) fun row col rowInside colInside => ?_
  have rowSmall : row < shape.prod := rowInside
  have colSmall : col < shape.prod := colInside
  have small (index : Nat) :
      number (pick (levelsOf index shape) positions) (pick shape positions) <
        (pick shape positions).prod :=
    number_lt (Within.pick (within_levelsOf positive) inside)
  have inner : ∀ subRow ∈ Finset.range (pick shape positions).prod,
      (lifted second positions shape).entry (rowAt row subRow positions shape) col =
        if SameOutside shape.length positions (levelsOf row shape) (levelsOf col shape) then
          second.entry subRow (number (pick (levelsOf col shape) positions) (pick shape positions))
        else 0 := by
    intro subRow member
    obtain ⟨same, here⟩ := rowAt_spec positive distinct inside row
      (Finset.mem_range.mp member)
    rw [entry_lifted (rowAt_lt positive inside) colSmall, here]
    exact if_congr ⟨same.symm.trans, same.trans⟩ rfl rfl
  have product :
      (mul (lifted first positions shape) (lifted second positions shape)).entry row col =
        ∑ inner ∈ Finset.range shape.prod, (lifted first positions shape).entry row inner *
          (lifted second positions shape).entry inner col := entry_mul rowSmall colSmall
  rw [product, sum_lifted positive distinct inside rowSmall, entry_lifted rowSmall colSmall,
    entry_mul (firstRows ▸ small row) (secondCols ▸ small col), firstCols]
  split
  case isTrue same =>
    exact Finset.sum_congr rfl fun subRow member => by rw [inner subRow member, if_pos same]
  case isFalse different =>
    exact (Finset.sum_eq_zero fun subRow member => by
      rw [inner subRow member, if_neg different, mul_zero]).symm

end Positions

/-! ## Positions that are apart -/

section Apart

variable {first second shape : List Nat} (positive : ∀ dimension ∈ shape, 0 < dimension)
  (firstDistinct : first.Nodup) (firstInside : ∀ position ∈ first, position < shape.length)
  (apart : List.Disjoint first second)
include positive firstDistinct firstInside apart

/-- A basis state with new levels at some positions agrees with another one away from further
positions if it has the other one's levels at the former, and agrees with it away from both. -/
theorem sameOutside_rowAt_iff {row col subRow : Nat} (small : subRow < (pick shape first).prod) :
    SameOutside shape.length second (levelsOf (rowAt row subRow first shape) shape)
        (levelsOf col shape) ↔
      number (pick (levelsOf col shape) first) (pick shape first) = subRow ∧
        SameOutside shape.length (first ++ second) (levelsOf row shape) (levelsOf col shape) := by
  obtain ⟨same, here⟩ := rowAt_spec positive firstDistinct firstInside row small
  constructor
  · intro agrees
    refine ⟨?_, fun index below outside => ?_⟩
    · rw [← agrees.pick_eq firstInside apart.symm, here]
    · obtain ⟨notFirst, notSecond⟩ : index ∉ first ∧ index ∉ second := by simpa using outside
      exact (same index below notFirst).symm.trans (agrees index below notSecond)
  · rintro ⟨there, agrees⟩ index below notSecond
    have within (index : Nat) : Within (pick (levelsOf index shape) first) (pick shape first) :=
      Within.pick (within_levelsOf positive) firstInside
    by_cases listed : index ∈ first
    · have picked := ((within _).number_inj (within _)).mp (here.trans there.symm)
      exact List.map_eq_map_iff.mp picked index listed
    · exact (same index below listed).trans (agrees index below (by simp [listed, notSecond]))

/-- The product of two operators at positions that are apart has the products of their
entries. -/
theorem entry_mul_lifted {α : Type} [NonUnitalNonAssocSemiring α] {left right : DenseMatrix α}
    (secondInside : ∀ position ∈ second, position < shape.length) {row col : Nat}
    (rowInside : row < shape.prod) (colInside : col < shape.prod) :
    (mul (lifted left first shape) (lifted right second shape)).entry row col =
      if SameOutside shape.length (first ++ second) (levelsOf row shape) (levelsOf col shape) then
        left.entry (number (pick (levelsOf row shape) first) (pick shape first))
            (number (pick (levelsOf col shape) first) (pick shape first)) *
          right.entry (number (pick (levelsOf row shape) second) (pick shape second))
            (number (pick (levelsOf col shape) second) (pick shape second))
      else 0 := by
  have small : number (pick (levelsOf col shape) first) (pick shape first) <
      (pick shape first).prod :=
    number_lt (Within.pick (within_levelsOf positive) firstInside)
  have inner : ∀ subRow ∈ Finset.range (pick shape first).prod,
      left.entry (number (pick (levelsOf row shape) first) (pick shape first)) subRow *
          (lifted right second shape).entry (rowAt row subRow first shape) col =
        if number (pick (levelsOf col shape) first) (pick shape first) = subRow then
          if SameOutside shape.length (first ++ second) (levelsOf row shape)
              (levelsOf col shape) then
            left.entry (number (pick (levelsOf row shape) first) (pick shape first)) subRow *
              right.entry (number (pick (levelsOf row shape) second) (pick shape second))
                (number (pick (levelsOf col shape) second) (pick shape second))
          else 0
        else 0 := by
    intro subRow member
    have below := Finset.mem_range.mp member
    have kept := (rowAt_spec positive firstDistinct firstInside row below).1.pick_eq
      secondInside apart
    rw [entry_lifted (rowAt_lt positive firstInside) colInside, kept, mul_ite, mul_zero,
      if_congr (sameOutside_rowAt_iff positive firstDistinct firstInside apart below) rfl rfl,
      ite_and]
  have product : (mul (lifted left first shape) (lifted right second shape)).entry row col =
      ∑ inner ∈ Finset.range shape.prod, (lifted left first shape).entry row inner *
        (lifted right second shape).entry inner col := entry_mul rowInside colInside
  rw [product, sum_lifted positive firstDistinct firstInside rowInside, Finset.sum_congr rfl inner,
    Finset.sum_ite_eq, if_pos (Finset.mem_range.mpr small)]

/-- **Operators that are apart.** -/
theorem mul_lifted_comm {α : Type} [NonUnitalNonAssocCommSemiring α] {left right : DenseMatrix α}
    (secondDistinct : second.Nodup) (secondInside : ∀ position ∈ second, position < shape.length) :
    mul (lifted left first shape) (lifted right second shape) =
      mul (lifted right second shape) (lifted left first shape) := by
  refine ext_entry (by rfl) (by rfl) fun row col rowInside colInside => ?_
  have both : SameOutside shape.length (first ++ second) (levelsOf row shape) (levelsOf col shape) ↔
      SameOutside shape.length (second ++ first) (levelsOf row shape) (levelsOf col shape) := by
    simp only [SameOutside, List.mem_append, or_comm]
  rw [entry_mul_lifted positive firstDistinct firstInside apart secondInside rowInside colInside,
    entry_mul_lifted positive secondDistinct secondInside apart.symm firstInside rowInside
      colInside, if_congr both (mul_comm _ _) rfl]

end Apart

/-! ## Positions of positions -/

/-- At all positions in order a matrix of the size of the register is placed as it is. -/
theorem lifted_range {α : Type} [Zero α] {matrix : DenseMatrix α} {shape : List Nat}
    (rows : matrix.rows = shape.prod) (cols : matrix.cols = shape.prod) :
    lifted matrix (List.range shape.length) shape = matrix := by
  refine ext_entry rows.symm cols.symm fun row col rowInside colInside => ?_
  have rowSmall : row < shape.prod := rowInside
  have colSmall : col < shape.prod := colInside
  have everywhere : SameOutside shape.length (List.range shape.length) (levelsOf row shape)
      (levelsOf col shape) :=
    fun index small outside => absurd (List.mem_range.mpr small) outside
  have picked (index : Nat) :
      pick (levelsOf index shape) (List.range shape.length) = levelsOf index shape := by
    have all : pick (levelsOf index shape) (List.range (levelsOf index shape).length) =
        levelsOf index shape := pick_range
    rwa [length_levelsOf] at all
  rw [entry_lifted rowSmall colSmall, if_pos everywhere, picked, picked, pick_range,
    number_levelsOf rowSmall, number_levelsOf colSmall]

/-- Picking from picked items is picking at picked positions. -/
theorem pick_pick {items positions inner : List Nat}
    (inside : ∀ position ∈ inner, position < positions.length) :
    pick (pick items positions) inner = pick items (pick positions inner) := by
  refine List.ext_getElem (by simp) fun index small _ => ?_
  have below : index < inner.length := by simpa using small
  have room := inside _ (List.getElem_mem below)
  simp [pick, room]

/-- Levels that are written at positions of positions are written among the levels at these
positions. -/
theorem pick_written_pick {levels values positions inner : List Nat} (distinct : positions.Nodup)
    (inside : ∀ position ∈ positions, position < levels.length)
    (innerInside : ∀ position ∈ inner, position < positions.length) :
    pick (written levels values (pick positions inner)) positions =
      written (pick levels positions) values inner := by
  induction inner generalizing levels values with
  | nil => cases values <;> rfl
  | cons position inner ih =>
      cases values with
      | nil => rfl
      | cons value values =>
          have small := innerInside position List.mem_cons_self
          have here : pick (levels.set (positions.getD position 0) value) positions =
              (pick levels positions).set position value := by
            rw [List.getD_eq_getElem _ _ small]
            refine List.ext_getElem (by simp) fun index below _ => ?_
            have listed : index < positions.length := by simpa using below
            have room := inside _ (List.getElem_mem listed)
            by_cases same : position = index
            · subst same
              simp [pick, room]
            · have apart : positions[position] ≠ positions[index] := fun equal =>
                same (distinct.getElem_inj_iff.mp equal)
              simp [pick, List.getElem_set_ne same, List.getElem?_set_ne apart]
          change pick (written levels (value :: values)
            (positions.getD position 0 :: pick positions inner)) positions = _
          rw [written, written, ← here]
          exact ih (by simpa using inside) fun other member =>
            innerInside other (List.mem_cons_of_mem _ member)

/-- **Positions of positions.** An operator placed on some of the qudits at some positions of a
register is placed at the positions of these qudits. -/
theorem lifted_placed {α : Type} [Zero α] [Add α] {matrix : DenseMatrix α}
    {positions inner shape : List Nat} (positive : ∀ dimension ∈ shape, 0 < dimension)
    (distinct : positions.Nodup) (inside : ∀ position ∈ positions, position < shape.length)
    (innerInside : ∀ position ∈ inner, position < positions.length) :
    lifted (placed matrix inner (pick shape positions)) positions shape =
      placed matrix (pick positions inner) shape := by
  refine ofFn_congr fun row col rowInside colInside => ?_
  have within (index : Nat) : Within (pick (levelsOf index shape) positions)
      (pick shape positions) := Within.pick (within_levelsOf positive) inside
  have rowSmall := number_lt (within row)
  have subPositive := pos_of_mem_pick positive inside
  have bothInside : ∀ position ∈ pick positions inner, position < shape.length := by
    intro position member
    obtain ⟨index, listed, rfl⟩ := List.mem_map.mp member
    rw [List.getD_eq_getElem _ _ (innerInside index listed)]
    exact inside _ (List.getElem_mem _)
  have subInside : ∀ position ∈ inner, position < (pick shape positions).length := by
    simpa using innerInside
  have rows (subRow : Nat) : rowAt col subRow (pick positions inner) shape = row ↔
      SameOutside shape.length positions (levelsOf row shape) (levelsOf col shape) ∧
        rowAt (number (pick (levelsOf col shape) positions) (pick shape positions)) subRow inner
            (pick shape positions) =
          number (pick (levelsOf row shape) positions) (pick shape positions) := by
    have kept : SameOutside shape.length positions
        (written (levelsOf col shape) (levelsOf subRow (pick shape (pick positions inner)))
          (pick positions inner)) (levelsOf col shape) := by
      intro index _ outside
      refine getD_written_of_notMem fun member => outside ?_
      obtain ⟨position, listed, rfl⟩ := List.mem_map.mp member
      rw [List.getD_eq_getElem _ _ (innerInside position listed)]
      exact List.getElem_mem _
    rw [rowAt_eq_iff_written positive bothInside rowInside,
      rowAt_eq_iff_written subPositive subInside rowSmall, levelsOf_number (within col),
      levelsOf_number (within row), pick_pick innerInside,
      ← pick_written_pick distinct (by simpa using inside) innerInside,
      eq_iff_pick_eq positions (by simp), length_levelsOf]
    exact and_congr_left'
      ⟨fun same => (kept.symm.trans same).symm, fun same => kept.trans same.symm⟩
  rw [placed, entry_ofFn rowSmall (number_lt (within col)), levelsOf_number (within col),
    pick_pick innerInside, pick_pick innerInside]
  by_cases same : SameOutside shape.length positions (levelsOf row shape) (levelsOf col shape)
  · simp only [rows, same, true_and, if_true]
  · simp only [rows, same, false_and, if_false, List.foldl_fixed]

/-! ## Placed controls -/

/-- Where a controlled operator is placed, the condition is asked of the levels at the
positions of the controls, and the matrix acts at the other positions. -/
theorem entry_lifted_controlled {α : Type} [Zero α] [One α] {controls targets shape : List Nat}
    {condition : Condition} {matrix : DenseMatrix α}
    (positive : ∀ dimension ∈ shape, 0 < dimension) (distinct : (controls ++ targets).Nodup)
    (inside : ∀ position ∈ controls ++ targets, position < shape.length)
    (rows : matrix.rows = (pick shape targets).prod) {row col : Nat} (rowInside : row < shape.prod)
    (colInside : col < shape.prod) :
    (lifted (controlled (pick shape controls) condition matrix) (controls ++ targets)
        shape).entry row col =
      if condition.accepts (pick (levelsOf row shape) controls) = true then
        (lifted matrix targets shape).entry row col
      else if row = col then 1 else 0 := by
  obtain ⟨controlsInside, targetsInside⟩ := List.forall_mem_append.mp inside
  have within (index : Nat) : Within (pick (levelsOf index shape) controls)
      (pick shape controls) := Within.pick (within_levelsOf positive) controlsInside
  let block (index : Nat) := number (pick (levelsOf index shape) controls) (pick shape controls)
  let offset (index : Nat) := number (pick (levelsOf index shape) targets) (pick shape targets)
  have small (index : Nat) : offset index < matrix.rows :=
    rows ▸ number_lt (Within.pick (within_levelsOf positive) targetsInside)
  have cell (index : Nat) :
      number (pick (levelsOf index shape) (controls ++ targets))
          (pick shape (controls ++ targets)) = block index * matrix.rows + offset index := by
    have appended (items : List Nat) :
        pick items (controls ++ targets) = pick items controls ++ pick items targets :=
      List.map_append
    rw [appended, appended, number_append (by simp), rows]
  have inBlocks (index : Nat) := cell_lt (number_lt (within index)) (small index)
  -- Two basis states agree away from the targets if they agree at the controls and away from
  -- all the positions.
  have agree : SameOutside shape.length targets (levelsOf row shape) (levelsOf col shape) ↔
      SameOutside shape.length (controls ++ targets) (levelsOf row shape) (levelsOf col shape) ∧
        block row = block col := by
    have apart := (List.nodup_append'.mp distinct).2.2
    rw [(within row).number_inj (within col)]
    constructor
    · intro same
      exact ⟨fun index below outside => same index below fun listed =>
        outside (List.mem_append_right _ listed), same.pick_eq controlsInside apart.symm⟩
    · rintro ⟨same, picked⟩ index below outside
      by_cases listed : index ∈ controls
      · exact List.map_eq_map_iff.mp picked index listed
      · exact same index below (by simp [listed, outside])
  have equal : row = col ↔
      SameOutside shape.length (controls ++ targets) (levelsOf row shape) (levelsOf col shape) ∧
        block row * matrix.rows + offset row = block col * matrix.rows + offset col := by
    rw [← cell, ← cell]
    exact eq_iff_sameOutside positive distinct inside rowInside colInside
  have sameBlock (same : block row * matrix.rows + offset row =
      block col * matrix.rows + offset col) : block row = block col := by
    have rowBlock : (block row * matrix.rows + offset row) / matrix.rows = block row :=
      cell_div (small row)
    rw [← rowBlock, same, cell_div (small col)]
  rw [entry_lifted rowInside colInside, cell, cell,
    entry_controlled (inBlocks row) (inBlocks col), cell_div (small row), cell_div (small col),
    Nat.mul_add_mod_of_lt (small row), Nat.mul_add_mod_of_lt (small col),
    levelsOf_number (within row), entry_lifted rowInside colInside, if_congr agree rfl rfl,
    if_congr equal rfl rfl, ite_and]
  by_cases accepted : condition.accepts (pick (levelsOf row shape) controls) = true
  · simp only [accepted, if_true]
    rfl
  · rw [if_neg accepted, if_neg accepted, ite_and]
    by_cases same : block row * matrix.rows + offset row = block col * matrix.rows + offset col
    · rw [if_pos (sameBlock same)]
    · rw [if_neg same, ite_self]

end QuditCircuits.Register
