import Mathlib.Algebra.BigOperators.Group.List.Basic
import QuditCircuits.Proofs.Register.Controlled

/-!
# Operators at positions of a register

`lifted` is the operator of a register that acts as a matrix on the qudits at some
positions: its entries are those of the matrix at the levels there, for basis states that
agree everywhere else. The checked embedding adds the entries of the matrix up column by
column instead (`placed`), which at different positions is the same, and yields it exactly when
the operator can be stored (`embed_eq_ok_iff`).
-/

namespace QuditCircuits.Register

/-- The items at some positions. -/
def pick (items positions : List Nat) : List Nat :=
  positions.map (items.getD · 0)

@[simp] theorem length_pick {items positions : List Nat} :
    (pick items positions).length = positions.length :=
  List.length_map _

theorem pick_range {items : List Nat} : pick items (List.range items.length) = items := by
  refine List.ext_getElem (by simp) fun index _ small => ?_
  simp [pick, small]

/-- Levels of `count` qudits that agree away from some positions. -/
def SameOutside (count : Nat) (positions first second : List Nat) : Prop :=
  ∀ index < count, index ∉ positions → first.getD index 0 = second.getD index 0

instance {count : Nat} {positions first second : List Nat} :
    Decidable (SameOutside count positions first second) :=
  inferInstanceAs (Decidable (∀ index < count, _))

/-! ## Levels at positions -/

/-- A level is below the dimension at its position. -/
theorem Within.getD_lt {levels shape : List Nat} (within : Within levels shape) {position : Nat}
    (inside : position < shape.length) : levels.getD position 0 < shape.getD position 0 := by
  have length : position < levels.length := within.length_eq ▸ inside
  rw [List.getD_eq_getElem _ _ length, List.getD_eq_getElem _ _ inside]
  exact List.Forall₂.get within length inside

theorem Within.pick {levels shape positions : List Nat} (within : Within levels shape)
    (inside : ∀ position ∈ positions, position < shape.length) :
    Within (pick levels positions) (pick shape positions) := by
  induction positions with
  | nil => exact List.Forall₂.nil
  | cons position positions ih =>
      exact List.Forall₂.cons (within.getD_lt (inside position List.mem_cons_self))
        (ih fun other member => inside other (List.mem_cons_of_mem _ member))

/-- A level below its dimension may be put in place of another. -/
theorem Within.set {levels shape : List Nat} (within : Within levels shape) {position level : Nat}
    (below : level < shape.getD position 0) : Within (levels.set position level) shape := by
  induction within generalizing position with
  | nil => exact List.Forall₂.nil
  | cons small within ih =>
      cases position with
      | zero => exact List.Forall₂.cons below within
      | succ position => exact List.Forall₂.cons small (ih below)

/-- Levels with others written at some positions, from the first on. -/
def written (levels : List Nat) : List Nat → List Nat → List Nat
  | value :: values, position :: positions =>
      written (levels.set position value) values positions
  | _, _ => levels

/-- Overwriting at positions inside the list does not fail. -/
theorem overwrite_eq_ok {levels values positions : List Nat}
    (inside : ∀ position ∈ positions, position < levels.length) :
    overwrite levels values positions = .ok (written levels values positions) := by
  induction positions generalizing levels values with
  | nil => cases values <;> rfl
  | cons position positions ih =>
      cases values with
      | nil => rfl
      | cons value values =>
          have here : replace levels position value = .ok (levels.set position value) :=
            if_pos (inside position List.mem_cons_self)
          rw [overwrite, here, written]
          exact ih fun other member => by
            simpa using inside other (List.mem_cons_of_mem _ member)

@[simp] theorem length_written {levels values positions : List Nat} :
    (written levels values positions).length = levels.length := by
  induction positions generalizing levels values with
  | nil => cases values <;> rfl
  | cons position positions ih =>
      cases values with
      | nil => rfl
      | cons value values => rw [written, ih, List.length_set]

/-- Levels of the picked qudits can be written into those of the register. -/
theorem within_written {levels values shape positions : List Nat} (within : Within levels shape)
    (small : Within values (pick shape positions)) :
    Within (written levels values positions) shape := by
  induction positions generalizing levels values with
  | nil =>
      cases small
      exact within
  | cons position positions ih =>
      obtain ⟨value, values, below, rest, rfl⟩ := List.forall₂_cons_right_iff.mp small
      exact ih (within.set below) rest

theorem getD_written_of_notMem {levels values positions : List Nat} {index : Nat}
    (outside : index ∉ positions) :
    (written levels values positions).getD index 0 = levels.getD index 0 := by
  induction positions generalizing levels values with
  | nil => cases values <;> rfl
  | cons position positions ih =>
      obtain ⟨apart, rest⟩ : index ≠ position ∧ index ∉ positions := by simpa using outside
      cases values with
      | nil => rfl
      | cons value values =>
          rw [written, ih rest]
          simp [List.getD, List.getElem?_set_ne (Ne.symm apart)]

/-- What is written at distinct positions is picked there again. -/
theorem pick_written {levels values positions : List Nat} (distinct : positions.Nodup)
    (inside : ∀ position ∈ positions, position < levels.length)
    (length : values.length = positions.length) :
    pick (written levels values positions) positions = values := by
  induction positions generalizing levels values with
  | nil => exact (List.length_eq_zero_iff.mp length).symm
  | cons position positions ih =>
      obtain ⟨fresh, distinct⟩ := List.nodup_cons.mp distinct
      obtain ⟨value, values, rfl⟩ := List.exists_cons_of_length_eq_add_one length
      have othersInside : ∀ other ∈ positions, other < (levels.set position value).length := by
        intro other member
        simpa using inside other (List.mem_cons_of_mem _ member)
      have rest : pick (written (levels.set position value) values positions) positions = values :=
        ih distinct othersInside (Nat.succ.inj length)
      have here : (written (levels.set position value) values positions).getD position 0 =
          value := by
        rw [getD_written_of_notMem fresh]
        simp [List.getD, inside position List.mem_cons_self]
      rw [written, pick, List.map_cons, here]
      exact congrArg (value :: ·) rest

/-- Lists of levels are equal if they agree at some positions and elsewhere. -/
theorem eq_iff_pick_eq (positions : List Nat) {first second : List Nat}
    (length : first.length = second.length) :
    first = second ↔ SameOutside second.length positions first second ∧
      pick first positions = pick second positions := by
  constructor
  · rintro rfl
    exact ⟨fun _ _ _ => rfl, rfl⟩
  · rintro ⟨same, picked⟩
    refine List.ext_getElem length fun index small otherSmall => ?_
    rw [← List.getD_eq_getElem _ 0 small, ← List.getD_eq_getElem _ 0 otherSmall]
    by_cases listed : index ∈ positions
    · exact List.map_eq_map_iff.mp picked index listed
    · exact same index otherSmall listed

/-- Writing levels gives the levels that have them at the positions and are the same
elsewhere. -/
theorem written_eq_iff {levels values positions other : List Nat} (distinct : positions.Nodup)
    (inside : ∀ position ∈ positions, position < levels.length)
    (length : values.length = positions.length) (sameLength : other.length = levels.length) :
    written levels values positions = other ↔
      SameOutside levels.length positions other levels ∧ pick other positions = values := by
  rw [eq_comm, eq_iff_pick_eq positions (by rw [length_written, sameLength]), length_written,
    pick_written distinct inside length]
  refine and_congr_left' (forall₃_congr fun index _ outside => ?_)
  rw [getD_written_of_notMem outside]

theorem pos_of_mem_pick {shape positions : List Nat} (positive : ∀ dimension ∈ shape, 0 < dimension)
    (inside : ∀ position ∈ positions, position < shape.length) :
    ∀ dimension ∈ pick shape positions, 0 < dimension := by
  intro dimension member
  obtain ⟨position, listed, rfl⟩ := List.mem_map.mp member
  rw [List.getD_eq_getElem _ _ (inside position listed)]
  exact positive _ (List.getElem_mem _)

/-- Different qudits of a register have no more basis states than the register. -/
theorem prod_pick_le {shape positions : List Nat} (positive : ∀ dimension ∈ shape, 0 < dimension)
    (distinct : positions.Nodup) (inside : ∀ position ∈ positions, position < shape.length) :
    (pick shape positions).prod ≤ shape.prod := by
  have among : List.Subperm positions (List.range shape.length) :=
    List.subperm_of_subset distinct fun position member =>
      List.mem_range.mpr (inside position member)
  obtain ⟨chosen, same, sublist⟩ := among
  have divides : (pick shape positions).prod ∣ shape.prod := by
    have part := (sublist.map (shape.getD · 0)).prod_dvd_prod
    have whole : ((List.range shape.length).map (shape.getD · 0)).prod = shape.prod :=
      congrArg List.prod pick_range
    rwa [whole, (same.map (shape.getD · 0)).prod_eq] at part
  exact Nat.le_of_dvd (List.prod_pos_iff_forall_pos_nat.mpr positive) divides

/-- A part of a register can be stored if the register can. -/
theorem Storable.pick {width : Nat} {shape positions : List Nat}
    (storable : Storable width shape 1) (positive : ∀ dimension ∈ shape, 0 < dimension)
    (distinct : positions.Nodup) (inside : ∀ position ∈ positions, position < shape.length) :
    Storable width (pick shape positions) 1 := by
  obtain ⟨blocks, size, entries⟩ := storable
  have smaller := prod_pick_le positive distinct inside
  have product := Nat.mul_le_mul_right 1 smaller
  exact ⟨Nat.lt_of_le_of_lt smaller blocks, Nat.lt_of_le_of_lt product size,
    Nat.lt_of_le_of_lt (Nat.mul_le_mul_right _ (Nat.mul_le_mul product product)) entries⟩

/-- The row of the register to which a row of a matrix at the positions contributes in a
column. -/
def rowAt (column subRow : Nat) (positions shape : List Nat) : Nat :=
  number (written (levelsOf column shape) (levelsOf subRow (pick shape positions)) positions) shape

/-- The row that is named by a column and a row of the matrix lies in the register. -/
theorem rowAt_lt {column subRow : Nat} {positions shape : List Nat}
    (positive : ∀ dimension ∈ shape, 0 < dimension)
    (inside : ∀ position ∈ positions, position < shape.length) :
    rowAt column subRow positions shape < shape.prod :=
  number_lt (within_written (within_levelsOf positive)
    (within_levelsOf (pos_of_mem_pick positive inside)))

/-- A row is named by a column and a row of the matrix if its levels are those of the column,
overwritten by those of the row. -/
theorem rowAt_eq_iff_written {column subRow row : Nat} {positions shape : List Nat}
    (positive : ∀ dimension ∈ shape, 0 < dimension)
    (inside : ∀ position ∈ positions, position < shape.length) (rowInside : row < shape.prod) :
    rowAt column subRow positions shape = row ↔
      written (levelsOf column shape) (levelsOf subRow (pick shape positions)) positions =
        levelsOf row shape := by
  constructor
  · rintro rfl
    exact (levelsOf_number (within_written (within_levelsOf positive)
      (within_levelsOf (pos_of_mem_pick positive inside)))).symm
  · intro same
    rw [rowAt, same, number_levelsOf rowInside]

/-- A row of the register receives the row of the matrix that it has at the positions, if
it agrees with the column elsewhere. -/
theorem rowAt_eq_iff {column subRow row : Nat} {positions shape : List Nat}
    (positive : ∀ dimension ∈ shape, 0 < dimension) (distinct : positions.Nodup)
    (inside : ∀ position ∈ positions, position < shape.length) (rowInside : row < shape.prod)
    (small : subRow < (pick shape positions).prod) :
    rowAt column subRow positions shape = row ↔
      SameOutside shape.length positions (levelsOf row shape) (levelsOf column shape) ∧
        number (pick (levelsOf row shape) positions) (pick shape positions) = subRow := by
  have rowWithin : Within (levelsOf row shape) shape := within_levelsOf positive
  have byNumber : pick (levelsOf row shape) positions = levelsOf subRow (pick shape positions) ↔
      number (pick (levelsOf row shape) positions) (pick shape positions) = subRow := by
    constructor
    · intro same
      rw [same, number_levelsOf small]
    · rintro rfl
      exact (levelsOf_number (rowWithin.pick inside)).symm
  rw [rowAt_eq_iff_written positive inside rowInside,
    written_eq_iff distinct (by simpa using inside) (by simp) (by simp), byNumber, length_levelsOf]

/-! ## The embedding -/

section Lifted

variable {α : Type}

/-- The operator of a register that acts as `matrix` on the qudits at some positions and
as the identity elsewhere. -/
def lifted [Zero α] (matrix : DenseMatrix α) (positions shape : List Nat) : DenseMatrix α :=
  DenseMatrix.ofFn shape.prod shape.prod fun row col =>
    if SameOutside shape.length positions (levelsOf row shape) (levelsOf col shape) then
      matrix.entry (number (pick (levelsOf row shape) positions) (pick shape positions))
        (number (pick (levelsOf col shape) positions) (pick shape positions))
    else 0

@[simp] theorem rows_lifted [Zero α] {matrix : DenseMatrix α} {positions shape : List Nat} :
    (lifted matrix positions shape).rows = shape.prod := rfl

@[simp] theorem cols_lifted [Zero α] {matrix : DenseMatrix α} {positions shape : List Nat} :
    (lifted matrix positions shape).cols = shape.prod := rfl

/-- An embedded matrix has its entries where the levels outside of the positions agree, and zeros
elsewhere. -/
theorem entry_lifted [Zero α] {matrix : DenseMatrix α} {positions shape : List Nat}
    {row col : Nat} (rowInside : row < shape.prod) (colInside : col < shape.prod) :
    (lifted matrix positions shape).entry row col =
      if SameOutside shape.length positions (levelsOf row shape) (levelsOf col shape) then
        matrix.entry (number (pick (levelsOf row shape) positions) (pick shape positions))
          (number (pick (levelsOf col shape) positions) (pick shape positions))
      else 0 :=
  DenseMatrix.entry_ofFn rowInside colInside

end Lifted

section Placed

variable {α : Type} [Zero α] [Add α]

/-- The operator that the columns of the checked embedding add up to. At different positions
it is the lifted operator; where positions repeat, several rows of the matrix may meet. -/
def placed (matrix : DenseMatrix α) (positions shape : List Nat) : DenseMatrix α :=
  DenseMatrix.ofFn shape.prod shape.prod fun row col =>
    (List.range (pick shape positions).prod).foldl (fun total subRow =>
      if rowAt col subRow positions shape = row then
        total + matrix.entry subRow
          (number (pick (levelsOf col shape) positions) (pick shape positions))
      else total) 0

/-- Adding to a row inside a column changes this row only. -/
theorem addAt_eq_ok {column : Array α} {row : Nat} (inside : row < column.size) (value : α) :
    ∃ result, addAt column row value = .ok result ∧ result.size = column.size ∧
      ∀ index, result[index]?.getD 0 =
        if row = index then column[index]?.getD 0 + value else column[index]?.getD 0 := by
  refine ⟨_, dif_pos inside, by simp, fun index => ?_⟩
  rcases eq_or_ne row index with rfl | other
  · simp [inside]
  · simp [other, Array.getElem?_set_ne]

/-- Steps that each add a value to one entry of a column add up all of them. -/
theorem foldlM_addAt {ι : Type} {size : Nat} {items : List ι}
    {step : Array α → ι → Except Fault (Array α)} {row : ι → Nat} {value : ι → α}
    (steps : ∀ item ∈ items, row item < size ∧ ∀ current,
      step current item = addAt current (row item) (value item))
    {start : Array α} (sized : start.size = size) :
    ∃ result, items.foldlM step start = .ok result ∧ ∀ index, result[index]?.getD 0 =
      items.foldl (fun total item => if row item = index then total + value item else total)
        (start[index]?.getD 0) := by
  induction items generalizing start with
  | nil => exact ⟨start, rfl, fun _ => rfl⟩
  | cons item items ih =>
      obtain ⟨inside, adds⟩ := steps item List.mem_cons_self
      obtain ⟨next, added, nextSize, nextEntries⟩ := addAt_eq_ok (sized ▸ inside) (value item)
      obtain ⟨result, folded, entries⟩ := ih
        (fun other member => steps other (List.mem_cons_of_mem _ member)) (nextSize.trans sized)
      refine ⟨result, ?_, fun index => ?_⟩
      · rw [List.foldlM_cons, adds, added]
        exact folded
      · rw [entries, nextEntries, List.foldl_cons]

/-- A row of a matrix adds its entry at the row of the register that receives it. -/
theorem addRow_eq_addAt {matrix : DenseMatrix α} {positions shape : List Nat}
    (positive : ∀ dimension ∈ shape, 0 < dimension) (fits : shape.prod < Machine.wordRange)
    (inside : ∀ position ∈ positions, position < shape.length) {subRow subColumn : Nat}
    (rowInside : subRow < matrix.rows) (colInside : subColumn < matrix.cols) (column : Nat)
    (current : Array α) :
    (do
      let value ← matrix.get subRow subColumn
      let rowLevels ← overwrite (levelsOf column shape)
        (← digits subRow (pick shape positions)) positions
      addAt current (← flatIndex rowLevels shape) value) =
    addAt current (rowAt column subRow positions shape) (matrix.entry subRow subColumn) := by
  have subPositive := pos_of_mem_pick positive inside
  have levelsInside : ∀ position ∈ positions, position < (levelsOf column shape).length := by
    simpa using inside
  have writtenWithin : Within (written (levelsOf column shape)
      (levelsOf subRow (pick shape positions)) positions) shape :=
    within_written (within_levelsOf positive) (within_levelsOf subPositive)
  simp only [DenseMatrix.get_eq_ok_entry rowInside colInside, digits_eq_ok subPositive, bind,
    Except.bind, overwrite_eq_ok levelsInside, flatIndex_eq_ok writtenWithin fits.le]
  rfl

/-- A column of the checked embedding has the entries of the operator. -/
theorem embedColumn_eq_ok {matrix : DenseMatrix α} {positions shape : List Nat}
    (positive : ∀ dimension ∈ shape, 0 < dimension) (fits : shape.prod < Machine.wordRange)
    (subFits : (pick shape positions).prod < Machine.wordRange)
    (inside : ∀ position ∈ positions, position < shape.length)
    (rows : matrix.rows = (pick shape positions).prod)
    (cols : matrix.cols = (pick shape positions).prod) (column : Nat) :
    ∃ result, embedColumn matrix positions shape (pick shape positions) shape.prod
        (pick shape positions).prod column = .ok result ∧
      ∀ row < shape.prod, result[row]?.getD 0 =
        (List.range (pick shape positions).prod).foldl (fun total subRow =>
          if rowAt column subRow positions shape = row then
            total + matrix.entry subRow
              (number (pick (levelsOf column shape) positions) (pick shape positions))
          else total) 0 := by
  have within : Within (levelsOf column shape) shape := within_levelsOf positive
  have subWithin := within.pick inside
  have levelsInside : ∀ position ∈ positions, position < (levelsOf column shape).length := by
    simpa using inside
  have selected : Machine.select (levelsOf column shape) positions =
      .ok (pick (levelsOf column shape) positions) := Machine.select_eq_ok 0 levelsInside
  have steps : ∀ subRow ∈ List.range (pick shape positions).prod,
      rowAt column subRow positions shape < shape.prod ∧ ∀ current,
      (do
        let value ← matrix.get subRow
          (number (pick (levelsOf column shape) positions) (pick shape positions))
        let rowLevels ← overwrite (levelsOf column shape)
          (← digits subRow (pick shape positions)) positions
        addAt current (← flatIndex rowLevels shape) value) =
      addAt current (rowAt column subRow positions shape) (matrix.entry subRow
        (number (pick (levelsOf column shape) positions) (pick shape positions))) :=
    fun subRow member => ⟨rowAt_lt positive inside, addRow_eq_addAt positive fits inside
      (rows ▸ List.mem_range.mp member) (cols ▸ number_lt subWithin) column⟩
  obtain ⟨result, folded, entries⟩ := foldlM_addAt steps (Array.size_replicate (v := (0 : α)))
  refine ⟨result, ?_, fun row rowInside => ?_⟩
  · simp only [embedColumn, digits_eq_ok positive, selected, flatIndex_eq_ok subWithin subFits.le,
      bind, Except.bind] at folded ⊢
    exact folded
  · have zero : (Array.replicate shape.prod (0 : α))[row]?.getD 0 = 0 := by simp [rowInside]
    rw [entries, zero]

/-- At positions of a register without empty qudits, repeated or not, the checked embedding of
a matrix of the size of its qudits yields the placed operator exactly when that can be stored
and its qudits have numbers. -/
theorem embed_eq_ok_iff_placed {width : Nat} {matrix result : DenseMatrix α}
    {positions shape : List Nat} (positive : ∀ dimension ∈ shape, 0 < dimension)
    (inside : ∀ position ∈ positions, position < shape.length)
    (rows : matrix.rows = (pick shape positions).prod)
    (cols : matrix.cols = (pick shape positions).prod) :
    embed width matrix positions shape = .ok result ↔
      Storable width shape 1 ∧ (pick shape positions).prod < Machine.wordRange ∧
        placed matrix positions shape = result := by
  have selected : Machine.select shape positions = .ok (pick shape positions) :=
    Machine.select_eq_ok 0 inside
  have built (fits : shape.prod < Machine.wordRange)
      (subFits : (pick shape positions).prod < Machine.wordRange) :
      ((List.range shape.prod).mapM (embedColumn matrix positions shape (pick shape positions)
        shape.prod (pick shape positions).prod) >>= fun columns =>
          pure (ofColumns shape.prod columns.toArray)) = .ok (placed matrix positions shape) := by
    choose column columnOk entries using
      embedColumn_eq_ok positive fits subFits inside rows cols
    rw [mapM_eq_ok fun index _ => columnOk index]
    refine congrArg Except.ok (DenseMatrix.ofFn_congr fun row col rowInside colInside => ?_)
    rw [← entries col row rowInside]
    simp [colInside]
  simp only [embed, bind_eq_ok_iff, selected]
  constructor
  · rintro ⟨total, counted, _, ⟨⟩, subTotal, subCounted, ⟨⟩, reserved, columns, mapped, made⟩
    obtain ⟨rfl, fits⟩ := Machine.eq_of_product_eq_ok counted
    obtain ⟨rfl, subFits⟩ := Machine.eq_of_product_eq_ok subCounted
    refine ⟨⟨fits, by rwa [Nat.mul_one], by rwa [Nat.mul_one, ← Machine.reserve_eq_ok_iff]⟩,
      subFits, ?_⟩
    have same := built fits subFits
    rw [mapped] at same
    exact Except.ok.inj (same.symm.trans made)
  · rintro ⟨⟨fits, _, entries⟩, subFits, rfl⟩
    rw [Nat.mul_one] at entries
    obtain ⟨columns, mapped, made⟩ := bind_eq_ok_iff.mp (built fits subFits)
    exact ⟨_, Machine.product_eq_ok positive fits, _, rfl, _,
      Machine.product_eq_ok (pos_of_mem_pick positive inside) subFits, (),
      Machine.reserve_eq_ok_iff.mpr entries, columns, mapped, made⟩

/-- Over a register that is too large the checked embedding faults for the reason that the
register does. -/
theorem embed_eq_error {width : Nat} {matrix : DenseMatrix α} {positions shape : List Nat}
    (positive : ∀ dimension ∈ shape, 0 < dimension)
    (inside : ∀ position ∈ positions, position < shape.length)
    (subFits : (pick shape positions).prod < Machine.wordRange)
    (large : ¬Storable width shape 1) :
    embed width matrix positions shape =
      .error (if shape.prod < Machine.wordRange then .capacity else .overflow) := by
  by_cases fits : shape.prod < Machine.wordRange
  · have full : ¬shape.prod * shape.prod * width < Machine.addressRange := fun entries =>
      large ⟨fits, by rwa [Nat.mul_one], by rwa [Nat.mul_one]⟩
    have selected : Machine.select shape positions = .ok (pick shape positions) :=
      Machine.select_eq_ok 0 inside
    have counted := Machine.product_eq_ok (pos_of_mem_pick positive inside) subFits
    simp only [embed, Machine.product_eq_ok positive fits, selected, counted, bind, Except.bind,
      Machine.reserve, full, fits, if_true, if_false]
  · rw [embed, Machine.product_eq_overflow positive fits, if_neg fits]
    rfl

end Placed

section Distinct

variable {α : Type} [AddCommMonoid α]

/-- Of the rows of a matrix at the positions at most one contributes to a row of the
register. -/
theorem sum_rowAt {positions shape : List Nat} {column row : Nat} (value : Nat → α)
    (positive : ∀ dimension ∈ shape, 0 < dimension) (distinct : positions.Nodup)
    (inside : ∀ position ∈ positions, position < shape.length) (rowInside : row < shape.prod) :
    ((List.range (pick shape positions).prod).map fun subRow =>
        if rowAt column subRow positions shape = row then value subRow else 0).sum =
      if SameOutside shape.length positions (levelsOf row shape) (levelsOf column shape) then
        value (number (pick (levelsOf row shape) positions) (pick shape positions))
      else 0 := by
  have within : Within (levelsOf row shape) shape := within_levelsOf positive
  have small := number_lt (within.pick inside)
  calc ((List.range (pick shape positions).prod).map fun subRow =>
          if rowAt column subRow positions shape = row then value subRow else 0).sum
      = ∑ subRow ∈ Finset.range (pick shape positions).prod,
          if rowAt column subRow positions shape = row then value subRow else 0 := rfl
    _ = ∑ subRow ∈ Finset.range (pick shape positions).prod,
          if SameOutside shape.length positions (levelsOf row shape) (levelsOf column shape) ∧
              number (pick (levelsOf row shape) positions) (pick shape positions) = subRow then
            value subRow
          else 0 := Finset.sum_congr rfl fun subRow member => if_congr
        (rowAt_eq_iff positive distinct inside rowInside (Finset.mem_range.mp member)) rfl rfl
    _ = _ := by
        by_cases same : SameOutside shape.length positions (levelsOf row shape)
            (levelsOf column shape)
        · simp only [same, true_and, if_true]
          rw [Finset.sum_ite_eq, if_pos (Finset.mem_range.mpr small)]
        · simp only [same, false_and, if_false, Finset.sum_const_zero]

/-- At different positions the placed operator is the lifted one. -/
theorem placed_eq_lifted {matrix : DenseMatrix α} {positions shape : List Nat}
    (positive : ∀ dimension ∈ shape, 0 < dimension) (distinct : positions.Nodup)
    (inside : ∀ position ∈ positions, position < shape.length) :
    placed matrix positions shape = lifted matrix positions shape := by
  refine DenseMatrix.ofFn_congr fun row col rowInside _ => ?_
  rw [← sum_rowAt (fun subRow => matrix.entry subRow _) positive distinct inside rowInside,
    List.sum_eq_foldl, List.foldl_map]
  refine List.foldl_ext _ _ _ fun total subRow _ => ?_
  rw [add_ite, add_zero]

/-- **The checked embedding.** At different positions of a register without empty qudits it
yields the operator exactly when that can be stored. -/
theorem embed_eq_ok_iff {width : Nat} {matrix result : DenseMatrix α} {positions shape : List Nat}
    (positive : ∀ dimension ∈ shape, 0 < dimension) (distinct : positions.Nodup)
    (inside : ∀ position ∈ positions, position < shape.length)
    (rows : matrix.rows = (pick shape positions).prod)
    (cols : matrix.cols = (pick shape positions).prod) :
    embed width matrix positions shape = .ok result ↔
      Storable width shape 1 ∧ lifted matrix positions shape = result := by
  rw [embed_eq_ok_iff_placed positive inside rows cols,
    placed_eq_lifted positive distinct inside]
  constructor
  · exact fun ⟨storable, _, same⟩ => ⟨storable, same⟩
  · exact fun ⟨storable, same⟩ => ⟨storable,
      Nat.lt_of_le_of_lt (prod_pick_le positive distinct inside) storable.blocks, same⟩

end Distinct

end QuditCircuits.Register
