import QuditCircuits.Decomposition.OneLevel
import QuditCircuits.Proofs.Amplitude
import QuditCircuits.Proofs.Gate.Flattening
import QuditCircuits.Proofs.RealScalar
import QuditCircuits.Proofs.Register.Positions

/-!
# Controlling the parts of a circuit

Every operation of a circuit can be put under the same controls. The stages of the new
circuit multiply up to the block matrix of what the stages of the given one multiply up to
(`applyStages_controlled`), so the new circuit has the block matrix of the given one. In
particular, a gate that is taken apart exactly can be controlled part by part.
-/

namespace QuditCircuits

open DenseMatrix Register

variable {R : Type}

/-- Absorbed controls need no more room than the controls of the block matrix. -/
theorem ControlledGate.storable_flatten {width : Nat} {sub : Gate R} {condition : Condition}
    {shape : List Nat} (positive : ∀ dimension ∈ sub.shape, 0 < dimension)
    (storable : Storable width shape sub.shape.prod) :
    Storable width (flatten sub condition shape).shape
      (flatten sub condition shape).sub.shape.prod := by
  cases controlled : sub.isControlled with
  | false => rwa [Gate.flatten_of_not_isControlled controlled]
  | true =>
      obtain ⟨inner, innerCondition, innerShape, rfl⟩ := Gate.exists_of_isControlled controlled
      change Storable width shape (innerShape ++ inner.shape).prod at storable
      rw [List.prod_append] at storable
      exact storable.append (List.prod_pos_iff_forall_pos_nat.mpr fun dimension member =>
        positive dimension (List.mem_append_right _ member))

variable [Scalar R]

/-- With controls the operation becomes that of the absorbed controlled gate. -/
theorem Operation.eq_of_controlledBy {operation wrapped : Operation R} {controls : List Qudit}
    {condition : Condition} (nonempty : controls ≠ [])
    (built : operation.controlledBy controls (some condition) = .ok wrapped) :
    (∀ dimension ∈ Qudit.dimensions controls ++ operation.gate.shape, 0 < dimension) ∧
      wrapped = ⟨(ControlledGate.flatten operation.gate condition.simplified
        (Qudit.dimensions controls)).toGate, controls ++ operation.qudits⟩ := by
  have someControls : controls.isEmpty = false := by simpa using nonempty
  rw [controlledBy, someControls] at built
  obtain ⟨gate, controlled, built⟩ := bind_eq_ok_iff.mp built
  obtain ⟨_, _, built⟩ := bind_eq_ok_iff.mp built
  obtain ⟨_, implied, shape, ⟨⟩, ⟨⟩, _, _, positive, _, rfl⟩ := Gate.control_eq_ok_iff.mp controlled
  cases built
  exact ⟨positive, rfl⟩

/-- An operation on different qudits that match its gate. -/
structure Operation.Valid (operation : Operation R) : Prop where
  wellFormed : operation.gate.WellFormed
  fits : operation.gate.checkQudits operation.qudits = .ok ()
  distinct : operation.qudits.Nodup

/-- The matrix of a gate under the controls of an operation. -/
theorem Operation.unitary_of_controlledBy {operation wrapped : Operation R}
    {controls : List Qudit} {condition : Condition} {matrix : Unitary R}
    (wellFormed : operation.gate.WellFormed) (nonempty : controls ≠ [])
    (valid : condition.validate (Qudit.dimensions controls) = .ok ())
    (storable : Storable amplitudeWidth (Qudit.dimensions controls) operation.gate.shape.prod)
    (built : operation.controlledBy controls (some condition) = .ok wrapped)
    (present : operation.gate.unitary = .ok (some matrix)) :
    wrapped.gate.unitary =
      .ok (some (controlled (Qudit.dimensions controls) condition matrix)) := by
  obtain ⟨positive, rfl⟩ := eq_of_controlledBy nonempty built
  obtain ⟨controlsPositive, gatePositive⟩ := List.forall_mem_append.mp positive
  obtain ⟨rows, cols⟩ := Gate.size_of_unitary wellFormed present
  have simplified := Condition.validate_simplified_iff.mpr valid
  have embedded := controlledEmbedding_eq_ok controlsPositive simplified (cols.trans rows.symm)
    (rows.symm ▸ storable)
  rw [ControlledGate.unitary_flatten wellFormed positive simplified
    (ControlledGate.storable_flatten gatePositive storable), present]
  change (some <$> controlledEmbedding amplitudeWidth (Qudit.dimensions controls)
    condition.simplified matrix) = _
  rw [embedded, controlled_congr fun assignment => Condition.accepts_simplified]
  rfl

/-- Where a gate has no special form and the gate it controls is taken apart, it is taken
apart into the controlled parts. -/
theorem Gate.parts_of_decompose {settings : DecompositionSettings R (GateResult R)}
    {sub : Gate R} {condition : Condition} {shape : List Nat} {qudits : List Qudit}
    {parts wrapped : List (Operation R)}
    (plain : (⟨sub, condition, shape⟩ : ControlledGate R).nativeOperation? qudits = .ok none)
    (apart : sub.decompose settings.extractingGlobalPhases (qudits.drop shape.length) =
      .ok (some parts))
    (decomposed : (Gate.controlled sub condition shape).decompose settings qudits =
      .ok (some wrapped)) :
    (Gate.controlled sub condition shape).checkQudits qudits = .ok () ∧
      parts.mapM (·.controlledBy (qudits.take shape.length) (some condition)) = .ok wrapped := by
  rw [decompose] at decomposed
  obtain ⟨_, fits, decomposed⟩ := bind_eq_ok_iff.mp decomposed
  obtain ⟨native, found, decomposed⟩ := bind_eq_ok_iff.mp decomposed
  cases Except.ok.inj (plain.symm.trans found)
  obtain ⟨listed, taken, decomposed⟩ := bind_eq_ok_iff.mp decomposed
  cases Except.ok.inj (apart.symm.trans taken)
  obtain ⟨_, built, equal⟩ := bind_eq_ok_iff.mp decomposed
  cases equal
  exact ⟨fits, built⟩

/-- Without controls the block matrix of a circuit is its own matrix. -/
theorem controlledEmbedding_nil_of_unitaryOf {targets : List Qudit} {condition : Condition}
    {operations : List (Operation R)} {matrix : Unitary R} (valid : condition.validate [] = .ok ())
    (composed : unitaryOf operations targets = .ok (some matrix)) :
    controlledEmbedding amplitudeWidth [] condition matrix = .ok matrix := by
  obtain ⟨rows, cols⟩ := size_of_composeStages composed
  obtain ⟨blocks, _, entries⟩ := storable_of_composeStages composed
  rw [← rows, Nat.mul_one] at entries
  have storable : Storable amplitudeWidth [] matrix.rows :=
    ⟨by decide, by simpa [rows] using blocks, by simpa using entries⟩
  rw [controlledEmbedding_eq_ok (by simp) valid (cols.trans rows.symm) storable,
    controlled_nil valid (cols.trans rows.symm)]

/-- Over a register that can be stored a block matrix is the controlled operator. -/
theorem controlledEmbedding_of_storable {controls targets : List Qudit} {condition : Condition}
    {matrix : Unitary R} (valid : condition.validate (Qudit.dimensions controls) = .ok ())
    (rows : matrix.rows = (Qudit.dimensions targets).prod)
    (cols : matrix.cols = (Qudit.dimensions targets).prod)
    (storable : Storable amplitudeWidth (Qudit.dimensions (controls ++ targets)) 1) :
    controlledEmbedding amplitudeWidth (Qudit.dimensions controls) condition matrix =
      .ok (controlled (Qudit.dimensions controls) condition matrix) := by
  rw [Qudit.dimensions_append] at storable
  have blocks := storable.outer Qudit.pos_of_mem_dimensions
  rw [Nat.mul_one, ← rows] at blocks
  exact controlledEmbedding_eq_ok Qudit.pos_of_mem_dimensions valid (cols.trans rows.symm) blocks

/-- Over a register that is too large a circuit faults as a block matrix does. -/
theorem unitaryOf_of_large {controls targets : List Qudit} {condition : Condition}
    {operations : List (Operation R)} {matrix : Unitary R}
    (valid : condition.validate (Qudit.dimensions controls) = .ok ())
    (rows : matrix.rows = (Qudit.dimensions targets).prod)
    (large : ¬Storable amplitudeWidth (Qudit.dimensions (controls ++ targets)) 1) :
    unitaryOf operations (controls ++ targets) =
      some <$> controlledEmbedding amplitudeWidth (Qudit.dimensions controls) condition matrix := by
  have size : (Qudit.dimensions (controls ++ targets)).prod =
      (Qudit.dimensions controls).prod * matrix.rows := by
    rw [Qudit.dimensions_append, List.prod_append, rows]
  have block : 0 < matrix.rows :=
    rows ▸ List.prod_pos_iff_forall_pos_nat.mpr Qudit.pos_of_mem_dimensions
  have largeBlocks : ¬Storable amplitudeWidth (Qudit.dimensions controls) matrix.rows := by
    intro blocks
    rw [rows, ← Nat.mul_one (Qudit.dimensions targets).prod] at blocks
    exact large (Qudit.dimensions_append ▸ blocks.append Nat.one_pos)
  rw [unitaryOf, composeStages_eq_error large,
    controlledEmbedding_eq_error Qudit.pos_of_mem_dimensions valid block largeBlocks, size]
  rfl

variable [ExactScalar R]

/-- **One stage.** Where an operation has a place in a register, the controlled operation
has one behind the controls, and its matrix there is the block matrix of the matrix of the
operation. -/
theorem Operation.stage_of_controlledBy {operation wrapped : Operation R}
    {controls targets : List Qudit} {condition : Condition} {entries embedded : Unitary R}
    {positions : List Nat} (part : operation.Valid) (nonempty : controls ≠ [])
    (distinct : (controls ++ targets).Nodup)
    (valid : condition.validate (Qudit.dimensions controls) = .ok ())
    (storable : Storable amplitudeWidth (Qudit.dimensions (controls ++ targets)) 1)
    (built : operation.controlledBy controls (some condition) = .ok wrapped)
    (present : operation.gate.unitary = .ok (some entries))
    (placed : positionsIn targets operation.qudits = some positions)
    (embeds : embed amplitudeWidth entries positions (Qudit.dimensions targets) = .ok embedded) :
    wrapped.gate.unitary =
        .ok (some (controlled (Qudit.dimensions controls) condition entries)) ∧
      positionsIn (controls ++ targets) wrapped.qudits =
        some (behind controls.length positions) ∧
      embed amplitudeWidth (controlled (Qudit.dimensions controls) condition entries)
          (behind controls.length positions) (Qudit.dimensions (controls ++ targets)) =
        .ok (controlled (Qudit.dimensions controls) condition embedded) := by
  obtain ⟨_, targetsDistinct, _⟩ := List.nodup_append.mp distinct
  have place := (positionsIn_eq_some_iff targetsDistinct).mp placed
  have apart := place.nodup part.distinct
  have shape : operation.gate.shape = pick (Qudit.dimensions targets) positions :=
    (Gate.checkQudits_eq_ok_iff.mp part.fits).trans place.dimensions
  obtain ⟨rows, cols⟩ := Gate.size_of_unitary part.wellFormed present
  rw [shape] at rows cols
  have positive : ∀ dimension ∈ Qudit.dimensions controls ++ Qudit.dimensions targets,
      0 < dimension := Qudit.dimensions_append ▸ Qudit.pos_of_mem_dimensions
  rw [Qudit.dimensions_append] at storable ⊢
  have matrixStorable : Storable amplitudeWidth (Qudit.dimensions controls)
      operation.gate.shape.prod := by
    refine (storable.outer Qudit.pos_of_mem_dimensions).mono ?_
    rw [Nat.mul_one, shape]
    exact prod_pick_le Qudit.pos_of_mem_dimensions apart place.inside
  refine ⟨unitary_of_controlledBy part.wellFormed nonempty valid matrixStorable built present,
    ?_, ?_⟩
  · obtain ⟨_, rfl⟩ := eq_of_controlledBy nonempty built
    exact (positionsIn_eq_some_iff distinct).mpr place.behind
  · have length : controls.length = (Qudit.dimensions controls).length := (List.length_map _).symm
    rw [length]
    exact embed_controlled positive apart place.inside rows cols storable embeds

/-- **The stages of controlled operations.** They multiply up to the block matrix of what
the stages of the operations multiply up to. -/
theorem applyStages_controlled {controls targets : List Qudit} {condition : Condition}
    (nonempty : controls ≠ []) (distinct : (controls ++ targets).Nodup)
    (valid : condition.validate (Qudit.dimensions controls) = .ok ())
    (storable : Storable amplitudeWidth (Qudit.dimensions (controls ++ targets)) 1)
    {operations wrapped : List (Operation R)} (parts : ∀ operation ∈ operations, operation.Valid)
    (built : operations.mapM (·.controlledBy controls (some condition)) = .ok wrapped)
    {total result : Unitary R} (rows : total.rows = (Qudit.dimensions targets).prod)
    (cols : total.cols = (Qudit.dimensions targets).prod)
    (applied : applyStages targets total
      (operations.map fun operation => (operation.gate.unitary, operation.qudits)) =
        .ok (some result)) :
    applyStages (controls ++ targets) (controlled (Qudit.dimensions controls) condition total)
      (wrapped.map fun operation => (operation.gate.unitary, operation.qudits)) =
        .ok (some (controlled (Qudit.dimensions controls) condition result)) := by
  induction operations generalizing wrapped total with
  | nil =>
      cases built
      cases applied
      rfl
  | cons operation operations ih =>
      simp only [List.mapM_cons, bind_eq_ok_iff] at built
      obtain ⟨first, firstBuilt, others, othersBuilt, equal⟩ := built
      cases equal
      obtain ⟨entries, positions, embedded, present, placed, embeds, _, applied⟩ :=
        applyStages_cons_eq_ok_iff.mp applied
      obtain ⟨firstPresent, firstPlaced, firstEmbeds⟩ :=
        Operation.stage_of_controlledBy (parts operation List.mem_cons_self) nonempty distinct valid
          storable firstBuilt present placed embeds
      obtain ⟨embeddedRows, embeddedCols⟩ := size_of_embed embeds
      have size : (embedded.mul total).rows = (Qudit.dimensions targets).prod := embeddedRows
      have rest := ih (fun other member => parts other (List.mem_cons_of_mem _ member))
        othersBuilt size cols applied
      rw [controlled_mul (embeddedCols.trans embeddedRows.symm) (rows.trans embeddedRows.symm)
        (cols.trans embeddedRows.symm)] at rest
      exact applyStages_cons_eq_ok_iff.mpr ⟨_, _, _, firstPresent, firstPlaced, firstEmbeds,
        by rw [cols_controlled, rows_controlled, embeddedRows, rows], rest⟩

/-- **The circuit of controlled operations.** Controlling every operation controls the
circuit. -/
theorem unitaryOf_controlled {controls targets : List Qudit} {condition : Condition}
    (distinct : (controls ++ targets).Nodup)
    (valid : condition.validate (Qudit.dimensions controls) = .ok ())
    {operations wrapped : List (Operation R)} (parts : ∀ operation ∈ operations, operation.Valid)
    (built : operations.mapM (·.controlledBy controls (some condition)) = .ok wrapped)
    {matrix : Unitary R} (composed : unitaryOf operations targets = .ok (some matrix)) :
    unitaryOf wrapped (controls ++ targets) =
      some <$> controlledEmbedding amplitudeWidth (Qudit.dimensions controls) condition matrix := by
  obtain ⟨rows, cols⟩ := size_of_composeStages composed
  rcases eq_or_ne controls [] with rfl | nonempty
  · have unchanged : operations.mapM (·.controlledBy [] (some condition)) =
        .ok (operations.map id) := mapM_eq_ok fun operation _ => rfl
    rw [unchanged, List.map_id] at built
    cases built
    have embedded := controlledEmbedding_nil_of_unitaryOf valid composed
    exact composed.trans (congrArg (some <$> ·) embedded).symm
  · by_cases storable : Storable amplitudeWidth (Qudit.dimensions (controls ++ targets)) 1
    · rw [unitaryOf, composeStages_eq_applyStages (storable_of_composeStages composed)] at composed
      have size : (Qudit.dimensions (controls ++ targets)).prod =
          (Qudit.dimensions controls).prod * (Qudit.dimensions targets).prod := by
        rw [Qudit.dimensions_append, List.prod_append]
      have applied := applyStages_controlled nonempty distinct valid storable parts built
        (by rfl) (by rfl) composed
      rw [controlled_identity, ← size] at applied
      rw [unitaryOf, composeStages_eq_applyStages storable, applied,
        controlledEmbedding_of_storable valid rows cols storable]
      rfl
    · exact unitaryOf_of_large valid rows storable

/-- **Controlled parts make a controlled whole.** If every operation of a circuit is put
under the same controls, the matrix over controls and targets is the block matrix of the
circuit, which exists if it can be stored. So a controlled gate that is taken apart into the
controlled parts of an exact decomposition is taken apart exactly. -/
theorem matrix_of_controlled_parts :
    (∀ (controls targets : List Qudit) (condition : Condition)
      (operations wrapped : List (Operation R)) (matrix : Unitary R),
      (controls ++ targets).Nodup →
      condition.validate (Qudit.dimensions controls) = .ok () →
      (∀ operation ∈ operations, operation.Valid) →
      operations.mapM (·.controlledBy controls (some condition)) = .ok wrapped →
      unitaryOf operations targets = .ok (some matrix) →
      unitaryOf wrapped (controls ++ targets) = some <$> controlledEmbedding amplitudeWidth
          (Qudit.dimensions controls) condition matrix ∧
        (Storable amplitudeWidth (Qudit.dimensions controls) matrix.rows →
          ∃ whole, controlledEmbedding amplitudeWidth (Qudit.dimensions controls) condition
            matrix = .ok whole)) ∧
    (∀ (settings : DecompositionSettings R (GateResult R)) (sub : Gate R) (condition : Condition)
      (shape : List Nat) (qudits : List Qudit) (parts wrapped : List (Operation R))
      (matrix : Unitary R), (Gate.controlled sub condition shape).WellFormed → qudits.Nodup →
      (⟨sub, condition, shape⟩ : ControlledGate R).nativeOperation? qudits = .ok none →
      sub.decompose settings.extractingGlobalPhases (qudits.drop shape.length) =
        .ok (some parts) →
      (∀ part ∈ parts, part.Valid) →
      sub.unitary = .ok (some matrix) →
      unitaryOf parts (qudits.drop shape.length) = sub.unitary →
      (Gate.controlled sub condition shape).decompose settings qudits = .ok (some wrapped) →
      unitaryOf wrapped qudits = (Gate.controlled sub condition shape).unitary) := by
  refine ⟨?_, ?_⟩
  · intro controls targets condition operations wrapped matrix distinct valid parts built composed
    obtain ⟨rows, cols⟩ := size_of_composeStages composed
    exact ⟨unitaryOf_controlled distinct valid parts built composed, fun storable =>
      ⟨_, controlledEmbedding_eq_ok Qudit.pos_of_mem_dimensions valid (cols.trans rows.symm)
        storable⟩⟩
  · intro settings sub condition shape qudits parts wrapped matrix wellFormed distinct plain apart
      valid present composed decomposed
    obtain ⟨_, _, _, positive, conditionValid, _⟩ := wellFormed
    obtain ⟨fits, built⟩ := Gate.parts_of_decompose plain apart decomposed
    have gateFits : (⟨sub, condition, shape⟩ : ControlledGate R).toGate.checkQudits qudits =
        .ok () := fits
    have dimensions : Qudit.dimensions (qudits.take shape.length) = shape :=
      (ControlledGate.dimensions_of_checkQudits gateFits).1
    have whole := unitaryOf_controlled (by rwa [List.take_append_drop])
      (dimensions.symm ▸ conditionValid) valid built (composed.trans present)
    rw [List.take_append_drop, dimensions] at whole
    rw [whole, Gate.unitary_controlled positive, present]
    rfl

/-- Under a qutrit and a qubit, an exchange that a qubit controls already and a phase on no
qudits. Under a qutrit alone, a circuit of an exchange that a qubit controls and a phase. -/
theorem matrix_of_controlled_parts_qutrit :
    let either : Condition := .sum {
      width := 2
      terms := .ofList [.ofSpecs [.set [0, 2], .value 1], .ofSpecs [.value 2, .set [0, 1]]]
      nonempty := by decide
      uniform := by decide }
    let outer : Condition := .product (.ofSpecs [.set [0, 2]])
    let qutrit : Qudit := ⟨0, 3, by decide⟩
    let phase : Gate ℝ := .angle .globalPhase (.value 1)
    let nested : Gate ℝ := .controlled .x (.product (.ofSpecs [.value 0])) [2]
    let circuit : Gate ℝ := .composite [2, 2] (.step .cx [1, 0] (.step phase [] .done))
    let parts : List (Operation ℝ) := [⟨nested, [.qubit 2, .qubit 1]⟩, ⟨phase, []⟩]
    (∃ wrapped matrix,
      parts.mapM (·.controlledBy [qutrit, .qubit 3] (some either)) = .ok wrapped ∧
      unitaryOf parts [.qubit 1, .qubit 2] = .ok (some matrix) ∧
      unitaryOf wrapped ([qutrit, .qubit 3] ++ [.qubit 1, .qubit 2]) =
        some <$> controlledEmbedding amplitudeWidth [3, 2] either matrix) ∧
    ∃ wrapped,
      (Gate.controlled circuit outer [3]).decompose .standard [qutrit, .qubit 1, .qubit 2] =
        .ok (some wrapped) ∧
      unitaryOf wrapped [qutrit, .qubit 1, .qubit 2] =
        (Gate.controlled circuit outer [3]).unitary := by
  intro either outer qutrit phase nested circuit parts
  have nestedValid : (⟨nested, [.qubit 2, .qubit 1]⟩ : Operation ℝ).Valid :=
    ⟨⟨trivial, rfl, rfl, by decide, rfl, rfl⟩, rfl, by decide⟩
  have phaseValid : (⟨phase, []⟩ : Operation ℝ).Valid := ⟨trivial, rfl, by decide⟩
  have exchangeValid : (⟨.cx, [.qubit 2, .qubit 1]⟩ : Operation ℝ).Valid :=
    ⟨trivial, rfl, by decide⟩
  refine ⟨?_, ?_⟩
  · have nestedPresent : nested.unitary =
        .ok (some (controlled [2] (.product (.ofSpecs [.value 0])) Unitary.flip)) := by
      rw [Gate.unitary_controlled (by decide)]
      exact congrArg (some <$> ·) (controlledEmbedding_eq_ok (by decide) rfl rfl
        ⟨by decide, by decide, by decide⟩)
    have composed : ∃ matrix, unitaryOf parts [.qubit 1, .qubit 2] = .ok (some matrix) := by
      rw [unitaryOf, composeStages_eq_applyStages ⟨by decide, by decide, by decide⟩]
      exact ⟨_, applyStages_cons_eq_ok_iff.mpr ⟨_, [1, 0], _, nestedPresent, rfl, rfl, rfl,
        applyStages_cons_eq_ok_iff.mpr ⟨_, [], _, rfl, rfl, rfl, rfl, rfl⟩⟩⟩
    obtain ⟨matrix, composed⟩ := composed
    exact ⟨_, matrix, rfl, composed, (matrix_of_controlled_parts.1 [qutrit, .qubit 3]
      [.qubit 1, .qubit 2] either parts _ matrix (by decide) rfl
      (by simp [parts, nestedValid, phaseValid]) rfl composed).1⟩
  · exact ⟨_, rfl, matrix_of_controlled_parts.2 .standard circuit outer [3]
      [qutrit, .qubit 1, .qubit 2] [⟨.cx, [.qubit 2, .qubit 1]⟩, ⟨phase, []⟩] _ _
      ⟨⟨trivial, trivial, trivial⟩, rfl, rfl, by decide, rfl, rfl⟩ (by decide) rfl rfl
      (by simp [exchangeValid, phaseValid]) rfl rfl rfl⟩

end QuditCircuits
