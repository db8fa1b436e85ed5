import Mathlib.Algebra.Group.Pi.Basic
import Mathlib.Algebra.Group.Prod
import QuditCircuits.Proofs.ComplexAmplitude
import QuditCircuits.Proofs.Register.Controlled
import QuditCircuits.Proofs.Synthesis.Emission
import QuditCircuits.Proofs.Synthesis.RotationAction

/-!
# Turns under one control

A 2×2 matrix under one control is applied by turns of the target around two exchanges of its
levels, and by a phase of the control. Of the turns it only matters that those about one axis add
up and that the exchange turns them around, so they are read as any operators for which this holds
(`TurnReading`). If the exchanges do not take place, the turns cancel (`TurnReading.turns_cancel`);
if they do, the turns between them change their sign and all of them add up to the turns of the
matrix (`TurnReading.turns_add_up`). A turn by zero is the identity, so it does not matter which
turns are left out.
-/

namespace QuditCircuits

variable {M P : Type*} [Monoid M] [Monoid P]

/-! ## Readings -/

/-- Turns about one axis, by any angle. -/
structure TurnFamily (exchange : M) where
  turn : ℝ → M
  turn_zero : turn 0 = 1
  turn_add : ∀ first second, turn (first + second) = turn first * turn second
  exchange_turn : ∀ angle, exchange * turn angle * exchange = turn (-angle)

/-- Operators of a target and phases that turns and exchanges are read as. -/
structure TurnReading (M P : Type*) [Monoid M] [Monoid P] where
  exchange : M
  exchange_exchange : exchange * exchange = 1
  rz : TurnFamily exchange
  ry : TurnFamily exchange
  phase : ℝ → P
  phase_zero : phase 0 = 1

/-- An operator of a target and a phase, for each level of a control. -/
abbrev ByLevel (M P : Type*) := Bool → M × P

namespace TurnReading

/-- The effect of an operation on a control and a target. Turns are read on the target only,
phases on the control only, and exchanges from the control to the target. -/
def effect? (reading : TurnReading M P) (control target : Qudit) :
    Operation ℝ → Option (ByLevel M P)
  | ⟨.angle .rz (.value angle), qudits⟩ =>
      if qudits = [target] then some fun _ => (reading.rz.turn angle, 1) else none
  | ⟨.angle .ry (.value angle), qudits⟩ =>
      if qudits = [target] then some fun _ => (reading.ry.turn angle, 1) else none
  | ⟨.angle .phaseShift (.value angle), qudits⟩ =>
      if qudits = [control] then some fun level => (1, if level then reading.phase angle else 1)
      else none
  | ⟨.cx, qudits⟩ =>
      if qudits = [control, target] then
        some fun level => (if level then reading.exchange else 1, 1)
      else none
  | _ => none

/-- The effect of operations one after the other, if all of them are read. -/
def total? (reading : TurnReading M P) (control target : Qudit) :
    List (Operation ℝ) → Option (ByLevel M P)
  | [] => some 1
  | operation :: later => do
      let first ← reading.effect? control target operation
      let rest ← reading.total? control target later
      return rest * first

variable {reading : TurnReading M P} {control target : Qudit}

/-- The first operation acts first. -/
theorem total?_cons {operation : Operation ℝ} {later : List (Operation ℝ)}
    {first rest : ByLevel M P} (here : reading.effect? control target operation = some first)
    (after : reading.total? control target later = some rest) :
    reading.total? control target (operation :: later) = some (rest * first) := by
  rw [total?, here, after]
  rfl

/-- The former operations act before the later ones. -/
theorem total?_append {former later : List (Operation ℝ)} {first rest : ByLevel M P}
    (before : reading.total? control target former = some first)
    (after : reading.total? control target later = some rest) :
    reading.total? control target (former ++ later) = some (rest * first) := by
  induction former generalizing first with
  | nil =>
      cases before
      rw [List.nil_append, after, mul_one]
  | cons operation former ih =>
      obtain ⟨own, here, before⟩ := Option.bind_eq_some_iff.mp before
      obtain ⟨others, followed, equal⟩ := Option.bind_eq_some_iff.mp before
      cases equal
      rw [List.cons_append, total?_cons here (ih followed), mul_assoc]

/-! ## Turns around two exchanges -/

section Angles

variable (reading : TurnReading M P) (angles : EulerAngles ℝ)

/-- Without the exchanges the turns cancel. -/
theorem turns_cancel :
    reading.rz.turn angles.beta * (reading.ry.turn (angles.gamma / 2) *
      (reading.ry.turn (-angles.gamma / 2) * (reading.rz.turn (-(angles.delta + angles.beta) / 2) *
        reading.rz.turn ((angles.delta - angles.beta) / 2)))) = 1 := by
  have aboutY : reading.ry.turn (angles.gamma / 2) * reading.ry.turn (-angles.gamma / 2) = 1 := by
    rw [← reading.ry.turn_add, ← reading.ry.turn_zero]
    congr 1
    ring
  rw [← mul_assoc (reading.ry.turn (angles.gamma / 2)), aboutY, one_mul, ← reading.rz.turn_add,
    ← reading.rz.turn_add, ← reading.rz.turn_zero]
  congr 1
  ring

/-- Exchanges around a product are exchanges around its factors. -/
theorem exchange_mul_exchange (first second : M) :
    reading.exchange * (first * second) * reading.exchange =
      (reading.exchange * first * reading.exchange) *
        (reading.exchange * second * reading.exchange) := by
  calc reading.exchange * (first * second) * reading.exchange
      = reading.exchange * first * 1 * second * reading.exchange := by
        simp only [mul_one, mul_assoc]
    _ = (reading.exchange * first * reading.exchange) *
          (reading.exchange * second * reading.exchange) := by
        rw [← reading.exchange_exchange]
        simp only [mul_assoc]

/-- With the exchanges the turns add up to those of the matrix. -/
theorem turns_add_up :
    reading.rz.turn angles.beta * (reading.ry.turn (angles.gamma / 2) *
      (reading.exchange * (reading.ry.turn (-angles.gamma / 2) *
        reading.rz.turn (-(angles.delta + angles.beta) / 2)) * reading.exchange *
          reading.rz.turn ((angles.delta - angles.beta) / 2))) =
      reading.rz.turn angles.beta * reading.ry.turn angles.gamma *
        reading.rz.turn angles.delta := by
  have aboutY : angles.gamma / 2 + -(-angles.gamma / 2) = angles.gamma := by ring
  have aboutZ : -(-(angles.delta + angles.beta) / 2) + (angles.delta - angles.beta) / 2 =
      angles.delta := by ring
  rw [exchange_mul_exchange, reading.ry.exchange_turn, reading.rz.exchange_turn, mul_assoc,
    mul_assoc, ← reading.rz.turn_add, aboutZ, ← mul_assoc (reading.ry.turn (angles.gamma / 2)),
    ← reading.ry.turn_add, aboutY]

end Angles

end TurnReading

/-! ## Emitted operations -/

namespace Pulse

/-- With exact angles only turns by zero are left out. -/
theorem turnUnlessSmall_zero {Q : Type} (family : AngleFamily) (angle : ℝ) (target : Q) :
    turnUnlessSmall 0 family angle target =
      if angle = 0 then [] else [.turn family angle target] := by
  by_cases vanishes : angle = 0
  · simp [turnUnlessSmall, Scalar.lt, Scalar.abs, vanishes]
  · simp [turnUnlessSmall, Scalar.lt, Scalar.abs, vanishes]

section Emitted

variable {R : Type} [Scalar R] {control target : Qudit}

/-- Turns under one control are operations. -/
theorem mapM_controlledTurns (controlLevels : control.dimension = 2)
    (targetLevels : target.dimension = 2) (tolerance : R) (angles : EulerAngles R) :
    (controlledTurns tolerance angles control target).mapM operation? =
      .ok (((controlledTurns tolerance angles control target).map operation).map some) := by
  rw [List.map_map]
  refine mapM_eq_ok fun pulse member => ?_
  rcases cases_of_mem_controlledTurns member with rfl | ⟨angle, rfl⟩ | ⟨angle, rfl⟩ | ⟨angle, rfl⟩
  all_goals
    refine operation?_eq_some (by rintro _ _ ⟨⟩) ?_
    simp [gate, qubits, Gate.shape, AngleFamily.shape, Qudit.dimensions, controlLevels,
      targetLevels]

/-- Of the turns under one control only the phase is on the control alone. -/
theorem filter_controlledTurns (distinct : control ≠ target) (tolerance : R)
    (angles : EulerAngles R) :
    ((controlledTurns tolerance angles control target).map operation).filter
        (·.qudits = [control]) =
      (turnUnlessSmall tolerance .phaseShift angles.alpha control).map operation := by
  have exchange : (Pulse.cnot control target : Pulse R Qudit).operation.qudits =
      [control, target] := rfl
  have others {family : AngleFamily} {angle : R} :
      ((turnUnlessSmall tolerance family angle target).map operation).filter
        (·.qudits = [control]) = [] := by
    refine List.filter_eq_nil_iff.mpr fun turned member => ?_
    obtain ⟨pulse, inside, rfl⟩ := List.mem_map.mp member
    rw [eq_of_mem_turnUnlessSmall inside]
    simp [operation, qubits, distinct.symm]
  have phase : ((turnUnlessSmall tolerance .phaseShift angles.alpha control).map operation).filter
      (·.qudits = [control]) =
        (turnUnlessSmall tolerance .phaseShift angles.alpha control).map operation := by
    refine List.filter_eq_self.mpr fun turned member => ?_
    obtain ⟨pulse, inside, rfl⟩ := List.mem_map.mp member
    rw [eq_of_mem_turnUnlessSmall inside]
    simp [operation, qubits]
  simp [controlledTurns, others, phase, exchange]

end Emitted

end Pulse

namespace TurnReading

variable {reading : TurnReading M P} {control target : Qudit}

/-- A turn has its effect even if it is left out. -/
theorem total?_turnUnlessSmall {family : AngleFamily} {qudit : Qudit}
    (effect : ℝ → ByLevel M P) (none : effect 0 = 1)
    (read : ∀ angle, reading.effect? control target ⟨.angle family (.value angle), [qudit]⟩ =
      some (effect angle)) (angle : ℝ) :
    reading.total? control target
      ((Pulse.turnUnlessSmall 0 family angle qudit).map Pulse.operation) = some (effect angle) := by
  rw [Pulse.turnUnlessSmall_zero]
  split
  case isTrue vanishes => rw [vanishes, none, List.map_nil, total?]
  case isFalse => exact (total?_cons (read angle) rfl).trans (congrArg some (one_mul _))

/-- A turn of the target, about an axis whose turns are read as a family. -/
theorem total?_turn (reading : TurnReading M P) (control target : Qudit) (family : AngleFamily)
    (turns : TurnFamily reading.exchange)
    (read : ∀ angle, reading.effect? control target ⟨.angle family (.value angle), [target]⟩ =
      some fun _ => (turns.turn angle, 1)) (angle : ℝ) :
    reading.total? control target
      ((Pulse.turnUnlessSmall 0 family angle target).map Pulse.operation) =
      some fun _ => (turns.turn angle, 1) := by
  refine total?_turnUnlessSmall (fun angle _ => (turns.turn angle, 1)) ?_ read angle
  exact funext fun _ => Prod.ext turns.turn_zero rfl

/-- A phase of the control. -/
theorem total?_phase (reading : TurnReading M P) (control target : Qudit) (angle : ℝ) :
    reading.total? control target
      ((Pulse.turnUnlessSmall 0 .phaseShift angle control).map Pulse.operation) =
      some fun level => (1, if level then reading.phase angle else 1) := by
  refine total?_turnUnlessSmall
    (fun angle level => (1, if level then reading.phase angle else 1)) ?_ ?_ angle
  · refine funext fun level => Prod.ext rfl ?_
    cases level with
    | false => rfl
    | true => exact reading.phase_zero
  · exact fun _ => if_pos rfl

/-- An exchange of the levels of the target. -/
theorem effect?_cnot : reading.effect? control target (Pulse.cnot control target).operation =
    some fun level => (if level then reading.exchange else 1, 1) :=
  if_pos rfl

/-- **The effect of controlled turns.** At level one of the control the target is turned and the
phase is applied; at level zero neither. -/
theorem total?_controlledTurns (reading : TurnReading M P) (angles : EulerAngles ℝ)
    (control target : Qudit) :
    reading.total? control target
      ((Pulse.controlledTurns 0 angles control target).map Pulse.operation) =
      some fun level =>
        if level then
          (reading.rz.turn angles.beta * reading.ry.turn angles.gamma *
            reading.rz.turn angles.delta, reading.phase angles.alpha)
        else 1 := by
  -- the pieces as they are emitted: up to the first exchange and beyond it, then the second
  have rz := reading.total?_turn control target .rz reading.rz fun _ => if_pos rfl
  have ry := reading.total?_turn control target .ry reading.ry fun _ => if_pos rfl
  have phase := reading.total?_phase control target
  have first := total?_append (rz ((angles.delta - angles.beta) / 2))
    (total?_cons effect?_cnot (rz (-(angles.delta + angles.beta) / 2)))
  have second := total?_append (total?_append first (ry (-angles.gamma / 2)))
    (total?_cons effect?_cnot (ry (angles.gamma / 2)))
  have whole := total?_append (total?_append second (rz angles.beta)) (phase angles.alpha)
  simp only [Pulse.controlledTurns, List.map_append, List.map_cons, Scalar.two_eq]
  refine whole.trans (congrArg some (funext fun level => ?_))
  cases level with
  | false =>
      refine Prod.ext ?_ ?_
      · simpa [mul_assoc] using reading.turns_cancel angles
      · simp
  | true =>
      refine Prod.ext ?_ ?_
      · simpa [mul_assoc] using reading.turns_add_up angles
      · simp

end TurnReading

/-! ## The matrices of the gates -/

open DenseMatrix

theorem corner_square (topLeft topRight bottomLeft bottomRight : Amplitude ℝ) :
    corner (square topLeft topRight bottomLeft bottomRight) = Matrix.of fun row col =>
      if row then (if col then bottomRight else bottomLeft)
      else if col then topRight else topLeft := by
  ext row col
  cases row <;> cases col <;> rfl

/-- A turn about the vertical axis is a phase for each level. -/
theorem corner_rz (angle : ℝ) : corner (AngleFamily.rz.unitary angle) =
    Matrix.of fun row col =>
      if row = col then Amplitude.cis (if row then angle / 2 else -angle / 2) else 0 := by
  rw [AngleFamily.unitary, Scalar.two_eq]
  ext row col
  cases row <;> cases col <;> rfl

/-- A turn about the other axis is a real rotation by half of the angle. -/
theorem corner_ry (angle : ℝ) : corner (AngleFamily.ry.unitary angle) =
    Matrix.of fun row col => Amplitude.realHom
      (if row = col then Real.cos (angle / 2)
      else if row then Real.sin (angle / 2) else -Real.sin (angle / 2)) := by
  rw [AngleFamily.unitary, Scalar.two_eq]
  ext row col
  cases row <;> cases col <;> rfl

/-- The matrices of turns about the z axis. -/
noncomputable def TurnFamily.rz : TurnFamily (levelExchange : Matrix Bool Bool (Amplitude ℝ)) where
  turn angle := corner (AngleFamily.rz.unitary angle)
  turn_zero := by
    ext row col
    rw [corner_rz]
    cases row <;> cases col <;> simp [Amplitude.cis_zero]
  turn_add first second := by
    ext row col
    rw [Matrix.mul_apply, Fintype.sum_bool]
    simp only [corner_rz]
    cases row <;> cases col <;> simp [← Amplitude.cis_add, add_div, neg_div, add_comm]
  exchange_turn angle := by
    ext row col
    simp only [corner_rz, levelExchange, Matrix.mul_apply, Fintype.sum_bool]
    cases row <;> cases col <;> simp

/-- The matrices of turns about the y axis. -/
noncomputable def TurnFamily.ry : TurnFamily (levelExchange : Matrix Bool Bool (Amplitude ℝ)) where
  turn angle := corner (AngleFamily.ry.unitary angle)
  turn_zero := by
    ext row col
    rw [corner_ry]
    cases row <;> cases col <;> simp
  turn_add first second := by
    ext row col
    rw [Matrix.mul_apply, Fintype.sum_bool]
    simp only [corner_ry, add_div, Real.cos_add, Real.sin_add]
    cases row <;> cases col <;> simp <;> ring
  exchange_turn angle := by
    ext row col
    simp only [corner_ry, levelExchange, Matrix.mul_apply, Fintype.sum_bool]
    cases row <;> cases col <;> simp [neg_div]

/-- The matrices of the gates. -/
noncomputable def TurnReading.gates :
    TurnReading (Matrix Bool Bool (Amplitude ℝ)) (Amplitude ℝ) where
  exchange := levelExchange
  exchange_exchange := by
    ext row col
    rw [Matrix.mul_apply, Fintype.sum_bool]
    cases row <;> cases col <;> simp [levelExchange]
  rz := .rz
  ry := .ry
  phase := Amplitude.cis
  phase_zero := Amplitude.cis_zero

/-- The matrix with given angles is its phase times its turns. -/
theorem EulerAngles.corner_toMatrix (angles : EulerAngles ℝ) : corner angles.toMatrix =
    Amplitude.cis angles.alpha • (corner (AngleFamily.rz.unitary angles.beta) *
      corner (AngleFamily.ry.unitary angles.gamma) *
        corner (AngleFamily.rz.unitary angles.delta)) := by
  have split {sum first second : ℝ} (equal : sum = first + second) :
      Amplitude.cis sum = Amplitude.cis first * Amplitude.cis second := by
    rw [equal, Amplitude.cis_add]
  have topLeft := split (by ring : -((angles.beta + angles.delta) / 2) =
    -angles.beta / 2 + -angles.delta / 2)
  have topRight := split (by ring : -((angles.beta - angles.delta) / 2) =
    -angles.beta / 2 + angles.delta / 2)
  have bottomLeft := split (by ring : (angles.beta - angles.delta) / 2 =
    angles.beta / 2 + -angles.delta / 2)
  have bottomRight := split (by ring : (angles.beta + angles.delta) / 2 =
    angles.beta / 2 + angles.delta / 2)
  have cosine : (Scalar.cos (angles.gamma / 2) : ℝ) = Real.cos (angles.gamma / 2) := rfl
  have sine : (Scalar.sin (angles.gamma / 2) : ℝ) = Real.sin (angles.gamma / 2) := rfl
  simp only [corner_rz, corner_ry, toMatrix, Scalar.two_eq, cosine, sine, corner_square,
    Amplitude.scale_eq_mul_realHom, topLeft, topRight, bottomLeft, bottomRight]
  ext row col
  simp only [Matrix.smul_apply, Matrix.mul_apply, Fintype.sum_bool, Matrix.of_apply]
  cases row <;> cases col <;> simp <;> ring

/-! ## Matrices under one control -/

/-- **Turns under one control are exact.** Over exact angles the turns that a 2×2 matrix with any
Euler angles becomes under one qubit are operations for all of them, whichever are left out because
their angle is zero. Read as any turns that add up and that the exchange of levels turns around,
they do nothing at level zero of the control, and turn the target by the angles of the matrix at
level one. The only operation on the control alone is the phase, which is there unless it is
zero. -/
theorem controlled_turns_are_exact (reading : TurnReading M P) (angles : EulerAngles ℝ)
    {control target : Qudit} (controlLevels : control.dimension = 2)
    (targetLevels : target.dimension = 2) (distinct : control ≠ target) :
    ∃ operations : List (Operation ℝ),
      (Pulse.controlledTurns 0 angles control target).mapM Pulse.operation? =
        .ok (operations.map some) ∧
      reading.total? control target operations = some (fun level =>
        if level then
          (reading.rz.turn angles.beta * reading.ry.turn angles.gamma *
            reading.rz.turn angles.delta, reading.phase angles.alpha)
        else 1) ∧
      operations.filter (·.qudits = [control]) =
        if angles.alpha = 0 then []
        else [⟨.angle .phaseShift (.value angles.alpha), [control]⟩] := by
  refine ⟨_, Pulse.mapM_controlledTurns controlLevels targetLevels 0 angles,
    reading.total?_controlledTurns angles control target, ?_⟩
  rw [Pulse.filter_controlledTurns distinct 0 angles, Pulse.turnUnlessSmall_zero]
  split <;> rfl

/-- A phase and two turns, where one turn is left out, as the matrices of the gates. -/
theorem controlled_turns_are_exact_dropped :
    (Qudit.qubit 0).dimension = 2 ∧ (Qudit.qubit 1).dimension = 2 ∧
    Qudit.qubit 0 ≠ Qudit.qubit 1 ∧
    ∃ operations : List (Operation ℝ),
      (Pulse.controlledTurns 0 ⟨1, 0, 2, 3⟩ (.qubit 0) (.qubit 1)).mapM Pulse.operation? =
        .ok (operations.map some) ∧
      TurnReading.gates.total? (.qubit 0) (.qubit 1) operations = some (fun level =>
        if level then
          (corner (AngleFamily.rz.unitary 0) * corner (AngleFamily.ry.unitary 2) *
            corner (AngleFamily.rz.unitary 3), Amplitude.cis 1)
        else 1) ∧
      operations.filter (·.qudits = [.qubit 0]) =
        [⟨.angle .phaseShift (.value 1), [.qubit 0]⟩] := by
  have controlLevels : (Qudit.qubit 0).dimension = 2 := rfl
  have targetLevels : (Qudit.qubit 1).dimension = 2 := rfl
  have distinct : Qudit.qubit 0 ≠ Qudit.qubit 1 := by decide
  obtain ⟨operations, emitted, acts, phase⟩ := controlled_turns_are_exact TurnReading.gates
    ⟨1, 0, 2, 3⟩ controlLevels targetLevels distinct
  exact ⟨controlLevels, targetLevels, distinct, operations, emitted, acts,
    phase.trans (if_neg one_ne_zero)⟩

/-- **Synthesis under one control.** A matrix other than the exchange of levels becomes operations
that do nothing at level zero of the control, and apply the matrix with its Euler angles at level
one. -/
theorem synthesize_acts_under_one_control {matrix : Unitary ℝ}
    (large : 2 ≤ matrix.rows ∧ 2 ≤ matrix.cols) (different : close 0 matrix Unitary.flip = false)
    {control target : Qudit} (controlLevels : control.dimension = 2)
    (targetLevels : target.dimension = 2) :
    ∃ operations effect, synthesize matrix [control] target 0 = .ok operations ∧
      TurnReading.gates.total? control target operations = some effect ∧
      effect false = 1 ∧
      (effect true).2 • (effect true).1 = corner (EulerAngles.ofMatrix matrix).toMatrix := by
  let angles := EulerAngles.ofMatrix matrix
  let operations := (Pulse.controlledTurns 0 angles control target).map Pulse.operation
  have pulses : [RotationStep.applyIf matrix control target].flatMap (RotationStep.pulses 0) =
      Pulse.controlledTurns 0 angles control target := by
    simp [RotationStep.pulses, different, angles]
  have emitted := Pulse.mapM_controlledTurns controlLevels targetLevels 0 angles
  rw [← pulses] at emitted
  have kept : (operations.map some).filterMap id = operations := by simp
  refine ⟨operations, _, ?_, TurnReading.total?_controlledTurns _ angles control target, rfl,
    (EulerAngles.corner_toMatrix angles).symm⟩
  refine synthesize_eq_ok_iff.mpr ⟨fun _ => large, _, RotationStep.rotate_singleton, _, ?_, kept⟩
  rw [emitted, pulses]

end QuditCircuits
