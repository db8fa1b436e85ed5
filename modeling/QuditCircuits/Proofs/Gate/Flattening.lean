import QuditCircuits.Proofs.Gate.WellFormed

/-!
# Absorbed controls

Building a controlled gate checks a request in order and then absorbs the controls of a
gate that is controlled already (`Gate.control_eq_ok_iff`). The absorbed form acts as
the unabsorbed one would: its matrix is the block matrix of the inner gate's matrix
under the outer controls (`ControlledGate.unitary_flatten`).
-/

namespace QuditCircuits

variable {R : Type}

/-- A change of the reasons for failure is none of the successes. -/
theorem mapError_eq_ok_iff {α ε δ : Type} {reason : ε → δ} {result : Except ε α} {value : α} :
    result.mapError reason = .ok value ↔ result = .ok value := by
  cases result <;> simp [Except.mapError]

theorem liftFault_eq_ok_iff {α : Type} {result : Except Fault α} {value : α} :
    (liftM result : GateResult R α) = .ok value ↔ result = .ok value :=
  mapError_eq_ok_iff

theorem liftCondition_eq_ok_iff {α : Type} {result : Except ConditionError α} {value : α} :
    (liftM result : GateResult R α) = .ok value ↔ result = .ok value :=
  mapError_eq_ok_iff

theorem demand_eq_ok_iff {met : Bool} {reason : GateError R} :
    demand met reason = .ok () ↔ met = true := by
  cases met <;> simp [demand]

/-- The condition that a request implies is in simplified form. -/
theorem ControlRequest.simplified_of_impliedCondition {request : ControlRequest}
    {condition : Condition} (implied : request.impliedCondition = .ok condition) :
    condition.simplified = condition := by
  unfold impliedCondition at implied
  split at implied
  case h_1 =>
    cases implied
    exact Condition.simplified_simplified
  case h_2 =>
    obtain ⟨ones, _, built⟩ := bind_eq_ok_iff.mp implied
    cases built
    rfl

namespace Gate

/-- The check of dimensions passes if every qudit has levels. -/
theorem checkLevels_eq_ok_iff {sub : Gate R} {shape : List Nat} :
    sub.checkLevels shape = .ok () ↔ ∀ dimension ∈ shape ++ sub.shape, 0 < dimension := by
  unfold checkLevels
  split
  case h_1 position found =>
    obtain ⟨inside, zero, _⟩ := List.findIdx?_eq_some_iff_getElem.mp found
    simp only [reduceCtorEq, false_iff]
    intro positive
    have here := positive _ (List.getElem_mem inside)
    exact absurd (beq_iff_eq.mp zero) (Nat.ne_of_gt here)
  case h_2 absent =>
    simp only [true_iff]
    intro dimension member
    have nonzero := List.findIdx?_eq_none_iff.mp absent dimension member
    exact Nat.pos_of_ne_zero (by simpa using nonzero)

variable [Scalar R]

theorem isMeasurement_of_checkControllable {sub : Gate R}
    (controllable : sub.checkControllable = .ok ()) : sub.isMeasurement = false := by
  obtain ⟨_, admitted, _⟩ := bind_eq_ok_iff.mp controllable
  simpa using demand_eq_ok_iff.mp admitted

/-- **Building.** A request for controls succeeds when the gate may be controlled and
the implied condition and dimensions pass every check; the result absorbs the controls
of the gate. -/
theorem control_eq_ok_iff {sub : Gate R} {request : ControlRequest} {built : ControlledGate R} :
    sub.control request = .ok built ↔
      sub.checkControllable = .ok () ∧ ∃ condition shape,
        request.impliedCondition = .ok condition ∧ request.impliedShape = .ok shape ∧
          condition.width = request.impliedCount ∧ shape.length = request.impliedCount ∧
          (∀ dimension ∈ shape ++ sub.shape, 0 < dimension) ∧
          condition.validate shape = .ok () ∧
          ControlledGate.flatten sub condition shape = built := by
  simp only [control, bind_eq_ok_iff, liftFault_eq_ok_iff, liftCondition_eq_ok_iff, pure,
    Except.pure, Except.ok.injEq]
  constructor
  · rintro ⟨⟨⟩, controllable, condition, implied, ⟨⟩, width, shape, impliedShape, ⟨⟩, length, ⟨⟩,
      levels, ⟨⟩, valid, flat⟩
    exact ⟨controllable, condition, shape, implied, impliedShape,
      beq_iff_eq.mp (demand_eq_ok_iff.mp width), beq_iff_eq.mp (demand_eq_ok_iff.mp length),
      checkLevels_eq_ok_iff.mp levels, valid, flat⟩
  · rintro ⟨controllable, condition, shape, implied, impliedShape, width, length, positive, valid,
      flat⟩
    exact ⟨(), controllable, condition, implied, (), demand_eq_ok_iff.mpr (beq_iff_eq.mpr width),
      shape, impliedShape, (), demand_eq_ok_iff.mpr (beq_iff_eq.mpr length), (),
      checkLevels_eq_ok_iff.mpr positive, (), valid, flat⟩

/-- A gate that is controlled already has the parts of a controlled gate. -/
theorem exists_of_isControlled {R : Type} {gate : Gate R} (controlled : gate.isControlled = true) :
    ∃ sub condition shape, gate = .controlled sub condition shape := by
  cases gate
  case controlled sub condition shape => exact ⟨sub, condition, shape, rfl⟩
  all_goals cases controlled

/-- A gate without controls has nothing to absorb. -/
theorem flatten_of_not_isControlled {R : Type} {sub : Gate R} {condition : Condition}
    {shape : List Nat} (uncontrolled : sub.isControlled = false) :
    ControlledGate.flatten sub condition shape = ⟨sub, condition, shape⟩ := by
  cases sub
  case controlled => cases uncontrolled
  all_goals rfl

/-- Absorbed controls stay in front of the qudits of the gate. -/
theorem shape_flatten {R : Type} {sub : Gate R} {condition : Condition} {shape : List Nat} :
    (ControlledGate.flatten sub condition shape).toGate.shape = shape ++ sub.shape := by
  cases controlled : sub.isControlled with
  | false =>
      rw [flatten_of_not_isControlled controlled]
      rfl
  | true =>
      obtain ⟨inner, innerCondition, innerShape, rfl⟩ := exists_of_isControlled controlled
      exact List.append_assoc shape innerShape inner.shape

/-- Controls that passed the checks of building, put in front of a well-formed gate,
make a well-formed gate. -/
theorem wellFormed_flatten {sub : Gate R} {condition : Condition} {shape : List Nat}
    (wellFormed : sub.WellFormed) (unmeasured : sub.isMeasurement = false)
    (positive : ∀ dimension ∈ shape ++ sub.shape, 0 < dimension)
    (valid : condition.validate shape = .ok ()) (simplified : condition.simplified = condition) :
    (ControlledGate.flatten sub condition shape).toGate.WellFormed := by
  cases controlled : sub.isControlled with
  | false =>
      rw [flatten_of_not_isControlled controlled]
      exact ⟨wellFormed, controlled, unmeasured, positive, valid, simplified⟩
  | true =>
      obtain ⟨inner, innerCondition, innerShape, rfl⟩ := exists_of_isControlled controlled
      obtain ⟨innerWellFormed, single, innerUnmeasured, _, innerValid, _⟩ := wellFormed
      refine ⟨innerWellFormed, single, innerUnmeasured, ?_,
        Condition.validate_combine valid innerValid, Condition.simplified_combine⟩
      change ∀ dimension ∈ (shape ++ innerShape) ++ inner.shape, 0 < dimension
      rwa [List.append_assoc]

/-- What is built of a well-formed gate is well-formed. -/
theorem wellFormed_of_control {sub : Gate R} {request : ControlRequest}
    {built : ControlledGate R} (wellFormed : sub.WellFormed)
    (success : sub.control request = .ok built) : built.toGate.WellFormed := by
  obtain ⟨controllable, condition, shape, implied, _, _, _, positive, valid, rfl⟩ :=
    control_eq_ok_iff.mp success
  exact wellFormed_flatten wellFormed (isMeasurement_of_checkControllable controllable) positive
    valid (ControlRequest.simplified_of_impliedCondition implied)

end Gate

/-! ## The matrix of an absorbed gate -/

section Matrices

open DenseMatrix Register

/-- A block matrix of a block matrix is that of the combined condition. -/
theorem Register.controlledEmbedding_controlledEmbedding {α : Type} [Zero α] [One α] {width : Nat}
    {outer inner : List Nat} {first second : Condition} {matrix : DenseMatrix α}
    (positive : ∀ dimension ∈ outer ++ inner, 0 < dimension)
    (firstValid : first.validate outer = .ok ()) (secondValid : second.validate inner = .ok ())
    (square : matrix.cols = matrix.rows) (storable : Storable width (outer ++ inner) matrix.rows) :
    (controlledEmbedding width inner second matrix >>= controlledEmbedding width outer first) =
      controlledEmbedding width (outer ++ inner) (first.combine second) matrix := by
  obtain ⟨outerPositive, innerPositive⟩ := List.forall_mem_append.mp positive
  rw [controlledEmbedding_eq_ok positive (Condition.validate_combine firstValid secondValid) square
      storable,
    controlledEmbedding_eq_ok innerPositive secondValid square (storable.inner outerPositive)]
  change controlledEmbedding width outer first (controlled inner second matrix) = _
  rw [controlledEmbedding_eq_ok outerPositive firstValid (by rfl) (storable.outer innerPositive),
    controlled_controlled (Condition.length_eq_of_validate firstValid)]

variable [Scalar R]

/-- Absorbing controls keeps the matrix: it is the block matrix, under the outer controls,
of the matrix of the gate whose controls are absorbed. -/
theorem ControlledGate.unitary_flatten {sub : Gate R} {condition : Condition} {shape : List Nat}
    (wellFormed : sub.WellFormed) (positive : ∀ dimension ∈ shape ++ sub.shape, 0 < dimension)
    (valid : condition.validate shape = .ok ())
    (storable : Storable amplitudeWidth (flatten sub condition shape).shape
      (flatten sub condition shape).sub.shape.prod) :
    (flatten sub condition shape).toGate.unitary =
      sub.unitary >>= Option.mapM (controlledEmbedding amplitudeWidth shape condition) := by
  cases controlled : sub.isControlled with
  | false =>
      rw [Gate.flatten_of_not_isControlled controlled]
      exact Gate.unitary_controlled positive
  | true =>
      obtain ⟨inner, innerCondition, innerShape, rfl⟩ := Gate.exists_of_isControlled controlled
      obtain ⟨innerWellFormed, _, _, innerPositive, innerValid, _⟩ := wellFormed
      have flatPositive : ∀ dimension ∈ (shape ++ innerShape) ++ inner.shape, 0 < dimension := by
        rwa [List.append_assoc]
      change (Gate.controlled inner (condition.combine innerCondition)
        (shape ++ innerShape)).unitary = _
      rw [Gate.unitary_controlled flatPositive, Gate.unitary_controlled innerPositive, bind_assoc]
      cases present : inner.unitary with
      | error fault => rfl
      | ok matrix? =>
          cases matrix? with
          | none => rfl
          | some matrix =>
              obtain ⟨rows, cols⟩ := Gate.size_of_unitary innerWellFormed present
              have both := controlledEmbedding_controlledEmbedding
                (List.forall_mem_append.mp flatPositive).1 valid innerValid (cols.trans rows.symm)
                (rows ▸ storable)
              change some <$> controlledEmbedding amplitudeWidth (shape ++ innerShape)
                  (condition.combine innerCondition) matrix =
                (some <$> controlledEmbedding amplitudeWidth innerShape innerCondition matrix) >>=
                  Option.mapM (controlledEmbedding amplitudeWidth shape condition)
              rw [← both]
              cases controlledEmbedding amplitudeWidth innerShape innerCondition matrix <;> rfl

/-- **Nested controls are combined controls.** A block matrix of a block matrix is the
block matrix of the combined condition over the appended controls, and a built gate that
has absorbed the controls of a controlled gate has the block matrix of that gate's own
matrix under the controls asked for. -/
theorem matrix_of_nested_controls :
    (∀ {α : Type} [Zero α] [One α] (outer inner : List Nat) (first second : Condition)
      (matrix : DenseMatrix α), (∀ dimension ∈ outer ++ inner, 0 < dimension) →
      first.validate outer = .ok () → second.validate inner = .ok () →
      matrix.cols = matrix.rows → Storable amplitudeWidth (outer ++ inner) matrix.rows →
      ∃ whole,
        (controlledEmbedding amplitudeWidth inner second matrix >>=
          controlledEmbedding amplitudeWidth outer first) = .ok whole ∧
        controlledEmbedding amplitudeWidth (outer ++ inner) (first.combine second) matrix =
          .ok whole) ∧
    (∀ (sub built : ControlledGate R) (request : ControlRequest), sub.toGate.WellFormed →
      sub.toGate.control request = .ok built →
      Storable amplitudeWidth built.shape built.sub.shape.prod →
      ∃ condition shape, request.impliedCondition = .ok condition ∧
        request.impliedShape = .ok shape ∧
        built.toGate.unitary = sub.toGate.unitary >>=
          Option.mapM (controlledEmbedding amplitudeWidth shape condition)) := by
  refine ⟨?_, ?_⟩
  · intro α _ _ outer inner first second matrix positive firstValid secondValid square storable
    have success := controlledEmbedding_eq_ok positive
      (Condition.validate_combine firstValid secondValid) square storable
    refine ⟨_, ?_, success⟩
    rw [← success]
    exact controlledEmbedding_controlledEmbedding positive firstValid secondValid square storable
  · intro sub built request wellFormed success storable
    obtain ⟨_, condition, shape, implied, impliedShape, _, _, positive, valid, rfl⟩ :=
      Gate.control_eq_ok_iff.mp success
    exact ⟨condition, shape, implied, impliedShape,
      ControlledGate.unitary_flatten wellFormed positive valid storable⟩

/-- An exchange under a qubit at level zero, behind a qutrit and a qubit that are at one of
the levels zero and two and at level one, or at level two and at any level. -/
theorem matrix_of_nested_controls_qutrit :
    let either : Condition := .sum {
      width := 2
      terms := .ofList [.ofSpecs [.set [0, 2], .value 1], .ofSpecs [.value 2, .set [0, 1]]]
      nonempty := by decide
      uniform := by decide }
    let zero : Condition := .product (.ofSpecs [.value 0])
    let exchange : ControlledGate Float := ⟨.x, zero, [2]⟩
    (∃ whole,
      (controlledEmbedding amplitudeWidth [2] zero (DenseMatrix.square 0 1 1 (0 : Int)) >>=
        controlledEmbedding amplitudeWidth [3, 2] either) = .ok whole ∧
      controlledEmbedding amplitudeWidth [3, 2, 2] (either.combine zero)
        (DenseMatrix.square 0 1 1 (0 : Int)) = .ok whole) ∧
    ∃ built,
      exchange.toGate.control { condition := some either, shape := some [3, 2] } = .ok built ∧
      built.toGate.unitary = exchange.toGate.unitary >>=
        Option.mapM (controlledEmbedding amplitudeWidth [3, 2] either) := by
  intro either zero exchange
  have wellFormed : exchange.toGate.WellFormed :=
    ⟨trivial, rfl, rfl, by decide, rfl, rfl⟩
  refine ⟨?_, _, rfl, ?_⟩
  · exact (matrix_of_nested_controls (R := Float)).1 [3, 2] [2] either zero _ (by decide) rfl rfl
      rfl ⟨by decide, by decide, by decide⟩
  · obtain ⟨condition, shape, implied, impliedShape, same⟩ := matrix_of_nested_controls.2
      exchange _ { condition := some either, shape := some [3, 2] } wellFormed rfl
      ⟨by decide, by decide, by decide⟩
    cases implied
    cases impliedShape
    exact same

end Matrices

end QuditCircuits
