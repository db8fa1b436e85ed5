import QuditCircuits.Proofs.Condition.Equality
import QuditCircuits.Proofs.Decomposition.Parts
import QuditCircuits.Proofs.Operation.Subregister
import QuditCircuits.Proofs.Register.Flips

/-!
# Raised controls

A control on a qubit accepts one of four sets of levels. Raising controls collects flips and
active controls so that the flips bring exactly the accepted levels to level one at all active
controls, unless a control accepts no level (`RaisedControls.exists_raises`). So a rotation under
the active controls at level one, between two rounds of the flips, is the rotation under the given
controls over the whole register (`RaisedControls.Raises.unitaryOf_eq`): what is asked of the
controls is asked after the flips, and controls that accept both levels are asked nothing.
-/

namespace QuditCircuits

open DenseMatrix Register

/-! ## Sets of levels of qubits -/

/-- A set of levels of a qubit is one of four. -/
theorem Ascending.toList_of_lt_two {set : Ascending Nat} (small : ∀ level ∈ set.toList, level < 2) :
    set.toList = [] ∨ set.toList = [0] ∨ set.toList = [0, 1] ∨ set.toList = [1] := by
  obtain ⟨levels, ascending⟩ := set
  match levels with
  | [] => exact .inl rfl
  | [first] =>
      have := small first List.mem_cons_self
      have one : first = 0 ∨ first = 1 := by omega
      rcases one with rfl | rfl <;> simp
  | first :: second :: rest =>
      have below := small second (by simp)
      have order : first < second := List.rel_of_pairwise_cons ascending List.mem_cons_self
      obtain ⟨rfl, rfl⟩ : first = 0 ∧ second = 1 := by omega
      cases rest with
      | nil => simp
      | cons third rest =>
          have last := small third (by simp)
          have further : 1 < third :=
            List.rel_of_pairwise_cons (List.Pairwise.of_cons ascending) List.mem_cons_self
          omega

namespace Conjunction

/-- Qubits can be asked for level one. -/
theorem validate_ones {qudits : List Qudit} (qubits : ∀ qudit ∈ qudits, qudit.dimension = 2) :
    (Condition.product (ones qudits.length)).validate (Qudit.dimensions qudits) = .ok () := by
  have fits : (ones qudits.length).Fits (Qudit.dimensions qudits) := by
    induction qudits with
    | nil => exact List.Forall₂.nil
    | cons qudit qudits ih =>
        obtain ⟨qubit, qubits⟩ := List.forall_mem_cons.mp qubits
        exact List.Forall₂.cons (by simp [one, Ascending.singleton, qubit]) (ih qubits)
  exact Condition.validate_eq_ok_iff.mpr (List.forall_mem_singleton.mpr fits)

end Conjunction

/-! ## Raised controls -/

variable {R : Type}

namespace RaisedControls

/-- Controls at some positions of a register are brought to level one by flips at `zeros` and stay
as controls at `active`: levels at the positions are accepted if the flips leave level one at all
active positions. -/
structure Raises (raised : RaisedControls R) (register : List Qudit) (sets : List (Ascending Nat))
    (positions zeros active : List Nat) : Prop where
  zeros_sublist : List.Sublist zeros positions
  active_sublist : List.Sublist active positions
  flips : ∃ qudits, raised.flips = qudits.map (fun qudit => ⟨.x, [qudit]⟩) ∧
    PlacedAt register qudits zeros
  placed : PlacedAt register raised.active active
  accepts : ∀ levels : List Nat, (∀ position ∈ positions, levels.getD position 0 < 2) →
    (Conjunction.acceptsWithin sets (pick levels positions) = true ↔ ∀ position ∈ active,
      (if position ∈ zeros then 1 - levels.getD position 0 else levels.getD position 0) = 1)

section Cons

variable {raised : RaisedControls R} {register : List Qudit} {set : Ascending Nat}
  {sets : List (Ascending Nat)} {control : Qudit} {position : Nat}
  {positions zeros active : List Nat} (raises : raised.Raises register sets positions zeros active)
  (here : register[position]? = some control) (fresh : position ∉ positions)
include raises fresh

/-- What is asked of the remaining positions does not depend on a flip in front of them. -/
theorem Raises.accepts_rest {levels : List Nat}
    (small : ∀ other ∈ positions, levels.getD other 0 < 2) :
    Conjunction.acceptsWithin sets (pick levels positions) = true ↔ ∀ other ∈ active,
      (if other ∈ position :: zeros then 1 - levels.getD other 0 else levels.getD other 0) = 1 := by
  rw [raises.accepts levels small]
  refine forall₂_congr fun other member => ?_
  have apart : other ≠ position := fun same => fresh (raises.active_sublist.subset (same ▸ member))
  simp [apart]

include here

/-- A control at level zero is flipped, and becomes active. -/
theorem Raises.cons_zero (zero : set.toList = [0]) :
    Raises (⟨⟨.x, [control]⟩ :: raised.flips, control :: raised.active⟩ : RaisedControls R)
      register (set :: sets) (position :: positions) (position :: zeros) (position :: active) := by
  obtain ⟨qudits, flips, flipsPlaced⟩ := raises.flips
  refine ⟨raises.zeros_sublist.cons_cons _, raises.active_sublist.cons_cons _,
    ⟨control :: qudits, by rw [flips, List.map_cons], flipsPlaced.cons here⟩,
    raises.placed.cons here, fun levels small => ?_⟩
  obtain ⟨level, others⟩ := List.forall_mem_cons.mp small
  change (set.toList.contains (levels.getD position 0) &&
    Conjunction.acceptsWithin sets (pick levels positions)) = true ↔ _
  rw [Bool.and_eq_true, raises.accepts_rest fresh others, List.forall_mem_cons, zero,
    if_pos List.mem_cons_self]
  refine and_congr_left fun _ => ?_
  rw [List.contains_iff_mem, List.mem_singleton]
  omega

/-- A control at level one becomes active as it is. -/
theorem Raises.cons_one (one : set.toList = [1]) :
    Raises (⟨raised.flips, control :: raised.active⟩ : RaisedControls R)
      register (set :: sets) (position :: positions) zeros (position :: active) := by
  refine ⟨raises.zeros_sublist.cons _, raises.active_sublist.cons_cons _, raises.flips,
    raises.placed.cons here, fun levels small => ?_⟩
  have others := (List.forall_mem_cons.mp small).2
  have kept : position ∉ zeros := fun listed => fresh (raises.zeros_sublist.subset listed)
  change (set.toList.contains (levels.getD position 0) &&
    Conjunction.acceptsWithin sets (pick levels positions)) = true ↔ _
  rw [Bool.and_eq_true, raises.accepts levels others, List.forall_mem_cons, one, if_neg kept,
    List.contains_iff_mem, List.mem_singleton]

omit here fresh in
/-- A control at any level is left out. -/
theorem Raises.cons_both (both : set.toList = [0, 1]) :
    raised.Raises register (set :: sets) (position :: positions) zeros active := by
  refine ⟨raises.zeros_sublist.cons _, raises.active_sublist.cons _, raises.flips, raises.placed,
    fun levels small => ?_⟩
  obtain ⟨level, others⟩ := List.forall_mem_cons.mp small
  change (set.toList.contains (levels.getD position 0) &&
    Conjunction.acceptsWithin sets (pick levels positions)) = true ↔ _
  have listed : levels.getD position 0 = 0 ∨ levels.getD position 0 = 1 := by omega
  rw [Bool.and_eq_true, raises.accepts levels others, both, List.contains_iff_mem, List.mem_pair,
    and_iff_right listed]

end Cons

/-- **Raising controls.** Controls on qubits are not brought to level one if one of them accepts no
level, and otherwise they are. -/
theorem exists_raises {register controls : List Qudit} {positions : List Nat}
    {sets : List (Ascending Nat)} (placed : PlacedAt register controls positions)
    (distinct : positions.Nodup) (qubits : ∀ control ∈ controls, control.dimension = 2)
    (fits : List.Forall₂ (fun set dimension => ∀ level ∈ set.toList, level < dimension) sets
      (Qudit.dimensions controls)) :
    (∃ set ∈ sets, set.toList = []) ∧ ofSets? (R := R) sets controls = .ok none ∨
      (∀ set ∈ sets, set.toList ≠ []) ∧ ∃ raised zeros active,
        ofSets? (R := R) sets controls = .ok (some raised) ∧
          raised.Raises register sets positions zeros active := by
  induction placed generalizing sets with
  | nil =>
      cases fits
      refine .inr ⟨List.forall_mem_nil _, ⟨[], []⟩, [], [], rfl, ?_⟩
      exact ⟨List.Sublist.refl _, List.Sublist.refl _, ⟨[], rfl, List.Forall₂.nil⟩,
        List.Forall₂.nil, fun _ _ => iff_of_true rfl (List.forall_mem_nil _)⟩
  | @cons control position controls positions here placed ih =>
      cases fits with
      | @cons set dimension sets _ small fits =>
          obtain ⟨fresh, distinct⟩ := List.nodup_cons.mp distinct
          obtain ⟨qubit, qubits⟩ := List.forall_mem_cons.mp qubits
          rw [qubit] at small
          have flip : (Gate.x : Gate R).on [control] = .ok ⟨.x, [control]⟩ :=
            Gate.on_eq_ok rfl (by simp [Gate.shape, Qudit.dimensions, qubit])
          rw [List.exists_mem_cons_iff, List.forall_mem_cons]
          have cases := Ascending.toList_of_lt_two small
          rcases ih distinct qubits fits with
            ⟨unsatisfiable, others⟩ | ⟨satisfiable, raised, zeros, active, others, raises⟩
          · refine .inl ⟨.inr unsatisfiable, ?_⟩
            rcases cases with empty | zero | both | one
            · rw [ofSets?, empty]
              rfl
            · rw [ofSets?, zero, flip, others]
              rfl
            · rw [ofSets?, both, others]
              rfl
            · rw [ofSets?, one, others]
              rfl
          · rcases cases with empty | zero | both | one
            · refine .inl ⟨.inl empty, ?_⟩
              rw [ofSets?, empty]
              rfl
            · refine .inr ⟨⟨by simp [zero], satisfiable⟩, _, _, _, ?_,
                raises.cons_zero here fresh zero⟩
              rw [ofSets?, zero, flip, others]
              rfl
            · refine .inr ⟨⟨by simp [both], satisfiable⟩, _, _, _, ?_, raises.cons_both both⟩
              rw [ofSets?, both, others]
              rfl
            · refine .inr ⟨⟨by simp [one], satisfiable⟩, _, _, _, ?_,
                raises.cons_one here fresh one⟩
              rw [ofSets?, one, others]
              rfl

/-- After the flips the active controls are all at level one where the controls are accepted. -/
theorem Raises.accepts_ones_iff {raised : RaisedControls R} {register : List Qudit}
    {conjunction : Conjunction} {positions zeros active shape : List Nat}
    (raises : raised.Raises register conjunction.sets positions zeros active)
    (positive : ∀ dimension ∈ shape, 0 < dimension)
    (qubits : ∀ position ∈ positions, shape.getD position 0 = 2) (row : Nat) :
    (Conjunction.ones active.length).accepts
        (pick (levelsOf (flippedRow zeros shape row) shape) active) = true ↔
      conjunction.accepts (pick (levelsOf row shape) positions) = true := by
  have zerosQubits (position : Nat) (listed : position ∈ zeros) :=
    qubits position (raises.zeros_sublist.subset listed)
  have length : active.length =
      (pick (levelsOf (flippedRow zeros shape row) shape) active).length := length_pick.symm
  change _ ↔ Conjunction.acceptsWithin conjunction.sets _ = true
  rw [length, Conjunction.accepts_ones_iff, raises.accepts _ fun position listed =>
    level_lt_two positive qubits listed row, pick, List.forall_mem_map]
  refine forall₂_congr fun position listed => ?_
  have inside := inside_of_qubits qubits position (raises.active_sublist.subset listed)
  rw [getD_flippedRow positive zerosQubits inside]

end RaisedControls

/-! ## Rounds of flips -/

/-- In a register of qubits every dimension is two. -/
theorem Qudit.getD_dimensions_of_qubits {register : List Qudit}
    (qubits : ∀ qudit ∈ register, qudit.dimension = 2) {position : Nat}
    (inside : position < (dimensions register).length) :
    (dimensions register).getD position 0 = 2 := by
  rw [List.getD_eq_getElem _ _ inside]
  obtain ⟨qudit, member, same⟩ := List.mem_map.mp (List.getElem_mem inside)
  exact same.symm.trans (qubits qudit member)

variable [Scalar R] [ExactScalar R]

section Flips

variable {register qudits : List Qudit} {zeros : List Nat} {total : Unitary R}
  (storable : Storable amplitudeWidth (Qudit.dimensions register) 1)
  (registerDistinct : register.Nodup) (qubits : ∀ qudit ∈ register, qudit.dimension = 2)
  (rows : total.rows = (Qudit.dimensions register).prod)
include storable registerDistinct qubits rows

/-- One flip exchanges the rows of what comes before it. -/
theorem applyStages_flip {qudit : Qudit} {position : Nat} {later : List (Stage R)}
    (here : register[position]? = some qudit) :
    applyStages register total (((Gate.x : Gate R).unitary, [qudit]) :: later) =
      applyStages register (rowsFlipped [position] (Qudit.dimensions register) total) later := by
  have placed : PlacedAt register [qudit] [position] := .cons here .nil
  have dimension := Qudit.getD_dimensions_of_qubits qubits
    (placed.inside position List.mem_cons_self)
  have fits : (Gate.x : Gate R).checkQudits [qudit] = .ok () := by
    refine Gate.checkQudits_eq_ok_iff.mpr ?_
    rw [placed.dimensions]
    exact congrArg (List.cons · []) dimension.symm
  have fills : Stage.Fills ((Gate.x : Gate R).unitary, [qudit]) := Gate.fills trivial fits
  have found := (positionsIn_eq_some_iff registerDistinct).mpr placed
  change applyStages register total ((.ok (some Unitary.flip), [qudit]) :: later) = _
  rw [applyStages_cons_of_present storable fills found rows,
    placed_eq_lifted Qudit.pos_of_mem_dimensions (List.nodup_singleton _) placed.inside,
    mul_lifted_flip Qudit.pos_of_mem_dimensions dimension rows]

/-- A round of flips exchanges the rows of what comes before it. -/
theorem applyStages_flips {later : List (Stage R)} (placed : PlacedAt register qudits zeros)
    (distinct : zeros.Nodup) :
    applyStages register total
        ((qudits.map fun qudit => ((Gate.x : Gate R).unitary, [qudit])) ++ later) =
      applyStages register (rowsFlipped zeros (Qudit.dimensions register) total) later := by
  induction placed generalizing total with
  | nil => rw [rowsFlipped_nil rows, List.map_nil, List.nil_append]
  | @cons qudit position qudits zeros here placed ih =>
      obtain ⟨fresh, distinct⟩ := List.nodup_cons.mp distinct
      have all : PlacedAt register (qudit :: qudits) (position :: zeros) := placed.cons here
      have next : (rowsFlipped [position] (Qudit.dimensions register) total).rows =
          (Qudit.dimensions register).prod := rows
      rw [List.map_cons, List.cons_append,
        applyStages_flip storable registerDistinct qubits rows here, ih next distinct,
        rowsFlipped_cons Qudit.pos_of_mem_dimensions
          (fun other listed => Qudit.getD_dimensions_of_qubits qubits (all.inside other listed))
          fresh rows]

end Flips

/-! ## Rotations between flips -/

/-- **A rotation between flips** under controls that have been brought to level one is the rotation
under the condition. -/
theorem between_flips_eq_controlled {raised : RaisedControls R} {register : List Qudit}
    {conjunction : Conjunction} {positions zeros active : List Nat} {target : Nat}
    {matrix : Unitary R}
    (raises : raised.Raises register conjunction.sets positions zeros active)
    (qubits : ∀ qudit ∈ register, qudit.dimension = 2)
    (distinct : (positions ++ [target]).Nodup)
    (inside : ∀ position ∈ positions ++ [target], position < (Qudit.dimensions register).length)
    (rows : matrix.rows = (pick (Qudit.dimensions register) [target]).prod) :
    rowsFlipped zeros (Qudit.dimensions register)
        (mul (lifted (controlled (pick (Qudit.dimensions register) active)
            (.product (.ones active.length)) matrix) (active ++ [target])
            (Qudit.dimensions register))
          (rowsFlipped zeros (Qudit.dimensions register)
            (identity (Qudit.dimensions register).prod))) =
      lifted (controlled (pick (Qudit.dimensions register) positions) (.product conjunction) matrix)
        (positions ++ [target]) (Qudit.dimensions register) := by
  have positive : ∀ dimension ∈ Qudit.dimensions register, 0 < dimension :=
    Qudit.pos_of_mem_dimensions
  obtain ⟨positionsInside, targetInside⟩ := List.forall_mem_append.mp inside
  have dimension (position : Nat) (listed : position ∈ positions) :
      (Qudit.dimensions register).getD position 0 = 2 :=
    Qudit.getD_dimensions_of_qubits qubits (positionsInside position listed)
  have zerosDimension (position : Nat) (listed : position ∈ zeros) :=
    dimension position (raises.zeros_sublist.subset listed)
  have activeListed : List.Sublist (active ++ [target]) (positions ++ [target]) :=
    raises.active_sublist.append_right [target]
  have apart : List.Disjoint zeros [target] := by
    have separate := (List.nodup_append'.mp distinct).2.2
    exact fun position flips isTarget => separate (raises.zeros_sublist.subset flips) isTarget
  refine ext_entry (by rfl) (by rfl) fun row col rowInside colInside => ?_
  have rowSmall : row < (Qudit.dimensions register).prod := rowInside
  have colSmall : col < (Qudit.dimensions register).prod := colInside
  have accepted : (Condition.product (.ones active.length)).accepts (pick (levelsOf
        (flippedRow zeros (Qudit.dimensions register) row) (Qudit.dimensions register)) active) =
          true ↔
      (Condition.product conjunction).accepts
        (pick (levelsOf row (Qudit.dimensions register)) positions) = true :=
    raises.accepts_ones_iff positive dimension row
  have same : flippedRow zeros (Qudit.dimensions register) row =
      flippedRow zeros (Qudit.dimensions register) col ↔ row = col := by
    rw [flippedRow_eq_iff positive zerosDimension rowSmall
      (flippedRow_lt positive zerosDimension col),
      flippedRow_flippedRow positive zerosDimension colSmall]
  rw [entry_between_flips positive zerosDimension (by rfl) (by rfl) rowSmall colSmall,
    entry_lifted_controlled positive (activeListed.nodup distinct)
      (fun position listed => inside position (activeListed.subset listed)) rows
      (flippedRow_lt positive zerosDimension row) (flippedRow_lt positive zerosDimension col),
    entry_lifted_controlled positive distinct inside rows rowSmall colSmall,
    entry_lifted_flippedRow positive zerosDimension targetInside apart rowSmall colSmall,
    if_congr accepted rfl (if_congr same rfl rfl)]

/-- The operations of a rotation between flips multiply up to the rotation under the condition. -/
theorem RaisedControls.Raises.unitaryOf_eq {raised : RaisedControls R} {register : List Qudit}
    {conjunction : Conjunction} {positions zeros active : List Nat} {target : Qudit}
    {position : Nat} {rotation : List (Operation R)} {matrix : Unitary R}
    (raises : raised.Raises register conjunction.sets positions zeros active)
    (storable : Storable amplitudeWidth (Qudit.dimensions register) 1)
    (registerDistinct : register.Nodup) (qubits : ∀ qudit ∈ register, qudit.dimension = 2)
    (distinct : (positions ++ [position]).Nodup)
    (inside : ∀ other ∈ positions ++ [position], other < (Qudit.dimensions register).length)
    (here : register[position]? = some target) (matched : ∀ operation ∈ rotation,
      operation.gate.WellFormed ∧ operation.gate.checkQudits operation.qudits = .ok ())
    (rows : matrix.rows = (pick (Qudit.dimensions register) [position]).prod)
    (composed : unitaryOf rotation (raised.active ++ [target]) =
      .ok (some (controlled (Qudit.dimensions raised.active)
        (.product (.ones raised.active.length)) matrix))) :
    unitaryOf (raised.flips ++ rotation ++ raised.flips) register =
      .ok (some (lifted (controlled (pick (Qudit.dimensions register) positions)
        (.product conjunction) matrix) (positions ++ [position]) (Qudit.dimensions register))) := by
  obtain ⟨flipped, flips, flipsPlaced⟩ := raises.flips
  have zerosDistinct := raises.zeros_sublist.nodup (List.nodup_append'.mp distinct).1
  have partDistinct : (active ++ [position]).Nodup :=
    (raises.active_sublist.append_right [position]).nodup distinct
  have part : PlacedAt register (raised.active ++ [target]) (active ++ [position]) :=
    List.rel_append raises.placed (.cons here .nil)
  have stages : (flipped.map fun qudit => (⟨.x, [qudit]⟩ : Operation R)).map
      (fun operation => (operation.gate.unitary, operation.qudits)) =
        flipped.map fun qudit => ((Gate.x : Gate R).unitary, [qudit]) := List.map_map
  rw [raises.placed.dimensions, raises.placed.length_eq] at composed
  rw [unitaryOf, composeStages_eq_applyStages storable, flips, List.map_append, List.map_append,
    stages, List.append_assoc, applyStages_flips storable registerDistinct qubits (by rfl)
      flipsPlaced zerosDistinct,
    applyStages_of_part storable registerDistinct partDistinct part matched (by rfl) composed,
    ← between_flips_eq_controlled raises qubits distinct inside rows,
    ← List.append_nil (flipped.map _), applyStages_flips storable registerDistinct qubits (by rfl)
      flipsPlaced zerosDistinct]
  rfl

end QuditCircuits
