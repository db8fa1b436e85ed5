import QuditCircuits.Operation.Controlled
import QuditCircuits.Proofs.Gate.Flattening

/-!
# The blocks of a controlled gate

The matrix of a controlled gate has one block for every assignment of levels to the
controls. What a block holds depends on `Condition.accepts` for the levels of its number
only (`Register.BlockEntries`), although the matrix is built from the enumerated assignments.
The same holds of each part of a mixture, and of the gate applied to qudits.
-/

namespace QuditCircuits

open DenseMatrix Register

namespace Register

variable {α : Type} [Zero α] [One α]

/-- `whole` acts as `matrix` inside the blocks whose levels the condition accepts, and as the
identity everywhere else. -/
structure BlockEntries (shape : List Nat) (condition : Condition) (matrix whole : DenseMatrix α) :
    Prop where
  rows : whole.rows = matrix.rows * shape.prod
  cols : whole.cols = matrix.rows * shape.prod
  cell : ∀ row col, row < whole.rows → col < whole.cols →
    ∃ levels, digits (row / matrix.rows) shape = .ok levels ∧
      whole.get row col =
        if row / matrix.rows = col / matrix.rows ∧ condition.accepts levels = true then
          matrix.get (row % matrix.rows) (col % matrix.rows)
        else .ok (if row = col then 1 else 0)

/-- The block matrix of a condition has the entries that the condition asks for. -/
theorem blockEntries_controlled {shape : List Nat} {condition : Condition}
    {matrix : DenseMatrix α} (positive : ∀ dimension ∈ shape, 0 < dimension)
    (square : matrix.cols = matrix.rows) :
    BlockEntries shape condition matrix (controlled shape condition matrix) where
  rows := Nat.mul_comm _ _
  cols := Nat.mul_comm _ _
  cell := by
    intro row col rowInside colInside
    have block : 0 < matrix.rows := by
      apply Nat.pos_of_ne_zero
      intro empty
      rw [rows_controlled, empty, Nat.mul_zero] at rowInside
      exact absurd rowInside (Nat.not_lt_zero row)
    refine ⟨levelsOf (row / matrix.rows) shape, digits_eq_ok positive, ?_⟩
    rw [get_eq_ok_entry rowInside colInside, entry_controlled rowInside colInside,
      get_eq_ok_entry (Nat.mod_lt _ block) (square.symm ▸ Nat.mod_lt _ block)]
    by_cases same : row / matrix.rows = col / matrix.rows
    · by_cases accepted : condition.accepts (levelsOf (row / matrix.rows) shape) = true
      · simp only [same, same ▸ accepted, and_self, if_true]
      · simp only [same, same ▸ accepted, and_false, if_true, if_false, Bool.false_eq_true]
    · have different : row ≠ col := fun equal => same (congrArg (· / matrix.rows) equal)
      simp only [same, different, false_and, if_false]

end Register

variable {R : Type} [Scalar R]

namespace Gate

/-- The mixture of a controlled gate whose qudits have levels. -/
theorem mixture_controlled {sub : Gate R} {condition : Condition} {shape : List Nat}
    (positive : ∀ dimension ∈ shape ++ sub.shape, 0 < dimension) :
    (Gate.controlled sub condition shape).mixture =
      sub.mixture >>= Option.mapM fun parts => parts.mapM fun part => do
        return (part.1, ← controlledEmbedding amplitudeWidth shape condition part.2) := by
  obtain ⟨qudits, built⟩ := Qudit.line_eq_ok positive
  rw [mixture, built]
  cases sub.mixture with
  | error fault => rfl
  | ok parts? => cases parts? <;> rfl

/-- A gate that is neither a channel nor controlled is the mixture of its matrix alone. -/
theorem mixture_eq_unitary {gate : Gate R} (uncontrolled : gate.isControlled = false)
    (pure : ∀ probability, gate ≠ .bitFlip probability) :
    gate.mixture = do return (← gate.unitary).map fun matrix => [(1, matrix)] := by
  cases gate
  case bitFlip probability => exact absurd rfl (pure probability)
  case controlled => cases uncontrolled
  all_goals rfl

/-- The matrices in the mixture of a gate without controls fill the register of the gate. -/
theorem size_of_mixture {gate : Gate R} {parts : List (R × Unitary R)}
    (wellFormed : gate.WellFormed) (uncontrolled : gate.isControlled = false)
    (present : gate.mixture = .ok (some parts)) :
    ∀ part ∈ parts, part.2.rows = gate.shape.prod ∧ part.2.cols = gate.shape.prod := by
  by_cases channel : ∃ probability, gate = .bitFlip probability
  · obtain ⟨probability, rfl⟩ := channel
    rw [mixture] at present
    cases present
    intro part member
    rcases List.mem_pair.mp member with rfl | rfl <;> exact ⟨rfl, rfl⟩
  · rw [mixture_eq_unitary uncontrolled fun probability same => channel ⟨probability, same⟩]
      at present
    obtain ⟨matrix?, matrixPresent, present⟩ := bind_eq_ok_iff.mp present
    obtain ⟨matrix, rfl, rfl⟩ := Option.map_eq_some_iff.mp (Except.ok.inj present)
    intro part member
    cases List.mem_singleton.mp member
    exact size_of_unitary wellFormed matrixPresent

end Gate

namespace ControlledGate

/-- The matrix of a controlled gate is the block matrix of the matrix it applies. -/
theorem unitary_eq_controlled {gate : ControlledGate R} {matrix : Unitary R}
    (wellFormed : gate.toGate.WellFormed)
    (storable : Storable amplitudeWidth gate.shape gate.sub.shape.prod)
    (present : gate.sub.unitary = .ok (some matrix)) :
    gate.toGate.unitary = .ok (some (controlled gate.shape gate.condition matrix)) := by
  obtain ⟨subWellFormed, _, _, positive, valid, _⟩ := wellFormed
  obtain ⟨rows, cols⟩ := Gate.size_of_unitary subWellFormed present
  have embedded := controlledEmbedding_eq_ok (List.forall_mem_append.mp positive).1 valid
    (cols.trans rows.symm) (rows.symm ▸ storable)
  rw [toGate, Gate.unitary_controlled positive, present]
  change (some <$> controlledEmbedding amplitudeWidth gate.shape gate.condition matrix) = _
  rw [embedded]
  rfl

/-- The mixture of a controlled gate has the block matrices of the parts, with their
probabilities. -/
theorem mixture_eq_controlled {gate : ControlledGate R} {parts : List (R × Unitary R)}
    (wellFormed : gate.toGate.WellFormed)
    (storable : Storable amplitudeWidth gate.shape gate.sub.shape.prod)
    (present : gate.sub.mixture = .ok (some parts)) :
    gate.toGate.mixture = .ok (some
      (parts.map fun part => (part.1, controlled gate.shape gate.condition part.2))) := by
  obtain ⟨subWellFormed, single, _, positive, valid, _⟩ := wellFormed
  have embedded : (parts.mapM fun part => do
      return (part.1, ← controlledEmbedding amplitudeWidth gate.shape gate.condition part.2)) =
        .ok (parts.map fun part => (part.1, controlled gate.shape gate.condition part.2)) := by
    refine mapM_eq_ok fun part member => ?_
    obtain ⟨rows, cols⟩ := Gate.size_of_mixture subWellFormed single present part member
    rw [controlledEmbedding_eq_ok (List.forall_mem_append.mp positive).1 valid
      (cols.trans rows.symm) (rows.symm ▸ storable)]
    rfl
  rw [toGate, Gate.mixture_controlled positive, present]
  change (some <$> parts.mapM fun part => do
    return (part.1, ← controlledEmbedding amplitudeWidth gate.shape gate.condition part.2)) = _
  rw [embedded]
  rfl

omit [Scalar R] in
/-- A controlled gate that is applied to qudits matches them, and is bound to them. -/
theorem eq_bind_of_on {gate : ControlledGate R} {qudits : List Qudit}
    {operation : ControlledOperation R} (applied : gate.on qudits = .ok operation) :
    operation = gate.bind qudits ∧ gate.toGate.checkQudits qudits = .ok () := by
  obtain ⟨_, _, applied⟩ := bind_eq_ok_iff.mp applied
  obtain ⟨_, fits, applied⟩ := bind_eq_ok_iff.mp applied
  cases applied
  exact ⟨rfl, fits⟩

omit [Scalar R] in
/-- A controlled gate applied to qudits is the gate of the controlled operation. -/
theorem gate_of_on {gate : ControlledGate R} {qudits : List Qudit}
    {operation : ControlledOperation R} (applied : gate.on qudits = .ok operation) :
    operation.gate = gate := by
  obtain ⟨rfl, fits⟩ := eq_bind_of_on applied
  have controls : Qudit.dimensions (qudits.take gate.controlCount) = gate.shape :=
    (dimensions_of_checkQudits fits).1
  rw [ControlledOperation.gate, bind, controls]

end ControlledGate

/-- A controlled operation has the matrix and the mixture of its gate. -/
theorem ControlledOperation.matrices_eq_gate {operation : ControlledOperation R}
    (positive : ∀ dimension ∈ operation.gate.shape ++ operation.gate.sub.shape, 0 < dimension) :
    operation.unitary = operation.gate.toGate.unitary ∧
      operation.mixture = operation.gate.toGate.mixture := by
  constructor
  · rw [ControlledGate.toGate, Gate.unitary_controlled positive, unitary]
    change (operation.sub.gate.unitary >>= _) = operation.sub.gate.unitary >>= _
    cases operation.sub.gate.unitary with
    | error fault => rfl
    | ok matrix? => cases matrix? <;> rfl
  · rw [ControlledGate.toGate, Gate.mixture_controlled positive, mixture]
    change (operation.sub.gate.mixture >>= _) = operation.sub.gate.mixture >>= _
    cases operation.sub.gate.mixture with
    | error fault => rfl
    | ok parts? => cases parts? <;> rfl

/-- **A controlled matrix is decided by acceptance.** The checked embedding of a square matrix
that can be stored has the blocks of its condition. So do the matrix of a controlled gate and
every part of its mixture, whose probabilities stay in place; applied to qudits, the gate has
the same matrix and mixture. -/
theorem blocks_decided_by_acceptance :
    (∀ {α : Type} [Zero α] [One α] (shape : List Nat) (condition : Condition)
      (matrix : DenseMatrix α), (∀ dimension ∈ shape, 0 < dimension) →
      condition.validate shape = .ok () → matrix.cols = matrix.rows →
      Storable amplitudeWidth shape matrix.rows →
      ∃ whole, controlledEmbedding amplitudeWidth shape condition matrix = .ok whole ∧
        BlockEntries shape condition matrix whole) ∧
    (∀ gate : ControlledGate R, gate.toGate.WellFormed →
      Storable amplitudeWidth gate.shape gate.sub.shape.prod →
      (∀ matrix, gate.sub.unitary = .ok (some matrix) →
        ∃ whole, gate.toGate.unitary = .ok (some whole) ∧
          BlockEntries gate.shape gate.condition matrix whole) ∧
      (∀ parts, gate.sub.mixture = .ok (some parts) →
        ∃ wholes, gate.toGate.mixture = .ok (some wholes) ∧
          List.Forall₂ (fun part whole => whole.1 = part.1 ∧
            BlockEntries gate.shape gate.condition part.2 whole.2) parts wholes) ∧
      (∀ qudits operation, gate.on qudits = .ok operation →
        operation.unitary = gate.toGate.unitary ∧
          operation.mixture = gate.toGate.mixture)) := by
  refine ⟨?_, ?_⟩
  · intro α _ _ shape condition matrix positive valid square storable
    exact ⟨_, controlledEmbedding_eq_ok positive valid square storable,
      blockEntries_controlled positive square⟩
  · intro gate wellFormed storable
    obtain ⟨subWellFormed, single, _, positive, _⟩ := id wellFormed
    have controlsPositive := (List.forall_mem_append.mp positive).1
    refine ⟨?_, ?_, ?_⟩
    · intro matrix present
      obtain ⟨rows, cols⟩ := Gate.size_of_unitary subWellFormed present
      exact ⟨_, ControlledGate.unitary_eq_controlled wellFormed storable present,
        blockEntries_controlled controlsPositive (cols.trans rows.symm)⟩
    · intro parts present
      refine ⟨_, ControlledGate.mixture_eq_controlled wellFormed storable present, ?_⟩
      refine List.forall₂_map_right_iff.mpr (List.forall₂_same.mpr fun part member => ⟨rfl, ?_⟩)
      obtain ⟨rows, cols⟩ := Gate.size_of_mixture subWellFormed single present part member
      exact blockEntries_controlled controlsPositive (cols.trans rows.symm)
    · intro qudits operation applied
      have same := ControlledGate.gate_of_on applied
      exact same ▸ ControlledOperation.matrices_eq_gate (same.symm ▸ positive)

/-- A qutrit at one of the levels zero and two, in front of an exchange of levels and in front
of a channel. -/
theorem blocks_decided_by_acceptance_qutrit :
    let outside : Condition := .sum {
      width := 1
      terms := .ofList [.ofSpecs [.value 2], .ofSpecs [.value 0]]
      nonempty := by decide
      uniform := by decide }
    let exchange : ControlledGate Float := ⟨.x, outside, [3]⟩
    let channel : ControlledGate Float := ⟨.bitFlip 0.25, outside, [3]⟩
    (∃ whole, controlledEmbedding amplitudeWidth [3] outside (DenseMatrix.square 0 1 1 (0 : Int)) =
        .ok whole ∧ BlockEntries [3] outside (DenseMatrix.square 0 1 1 (0 : Int)) whole) ∧
    (∃ whole, exchange.toGate.unitary = .ok (some whole) ∧
        BlockEntries [3] outside Unitary.flip whole) ∧
    (∃ wholes, channel.toGate.mixture = .ok (some wholes) ∧
        List.Forall₂ (fun part whole => whole.1 = part.1 ∧
          BlockEntries [3] outside part.2 whole.2)
          [(1 - 0.25, DenseMatrix.identity 2), (0.25, Unitary.flip)] wholes) ∧
    ∃ operation, exchange.on [⟨0, 3, by decide⟩, .qubit 1] = .ok operation ∧
      operation.unitary = exchange.toGate.unitary := by
  intro outside exchange channel
  have storable : Storable amplitudeWidth [3] 2 := ⟨by decide, by decide, by decide⟩
  have exchangeBlocks := (blocks_decided_by_acceptance (R := Float)).2 exchange
    ⟨trivial, rfl, rfl, by decide, rfl, rfl⟩ storable
  have channelBlocks := (blocks_decided_by_acceptance (R := Float)).2 channel
    ⟨trivial, rfl, rfl, by decide, rfl, rfl⟩ storable
  refine ⟨?_, exchangeBlocks.1 _ rfl, channelBlocks.2.1 _ rfl, _, rfl, ?_⟩
  · exact (blocks_decided_by_acceptance (R := Float)).1 [3] outside _ (by decide) rfl rfl storable
  · exact (exchangeBlocks.2.2 [⟨0, 3, by decide⟩, .qubit 1] _ rfl).1

end QuditCircuits
