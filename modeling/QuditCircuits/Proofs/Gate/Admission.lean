import QuditCircuits.Proofs.Condition.Validity
import QuditCircuits.Proofs.Gate.Flattening

/-!
# Admitted controls

A request that states its condition and its dimensions leaves nothing to infer: it is granted
if the gate admits these controls (`Gate.control_eq_ok_iff_admits`). Controls that a gate has
absorbed change neither whether it is a mixture nor whether it has symbols, so controls in two
layers are admitted if and only if they are admitted side by side
(`Gate.admits_layers_iff`), and they are absorbed to the same gate
(`ControlledGate.flatten_flatten`).
-/

namespace QuditCircuits

variable {R : Type}

namespace Conjunction

@[simp] theorem append_empty {conjunction : Conjunction} : conjunction.append ⟨[]⟩ = conjunction :=
  congrArg Conjunction.mk (List.append_nil _)

@[simp] theorem empty_append : Conjunction.append ⟨[]⟩ = id := rfl

end Conjunction

namespace Condition

/-- A condition on no qudits has the empty conjunction for its only alternative. -/
theorem conjunctions_eq_of_width_eq_zero {condition : Condition} (none : condition.width = 0) :
    condition.conjunctions = [⟨[]⟩] := by
  refine condition.pairwise_conjunctions.eq_of_mem_iff (List.pairwise_singleton _ _)
    fun term => ?_
  have empty : ∀ term ∈ condition.conjunctions, term = ⟨[]⟩ := fun term member =>
    congrArg Conjunction.mk (List.length_eq_zero_iff.mp
      ((width_of_mem_conjunctions member).trans none))
  rw [List.mem_singleton]
  refine ⟨empty term, ?_⟩
  rintro rfl
  obtain ⟨other, member⟩ := List.exists_mem_of_ne_nil _ condition.conjunctions_ne_nil
  exact empty other member ▸ member

/-- A condition on no qudits adds nothing behind a condition. -/
theorem combine_of_width_eq_zero {left right : Condition} (none : right.width = 0) :
    left.combine right = left.simplified := by
  rw [← simplified_combine]
  apply simplified_congr
  simp [conjunctions_combine, conjunctions_eq_of_width_eq_zero none]

theorem combine_of_width_eq_zero_left {left right : Condition} (none : left.width = 0) :
    left.combine right = right.simplified := by
  rw [← simplified_combine]
  apply simplified_congr
  simp [conjunctions_combine, conjunctions_eq_of_width_eq_zero none]

end Condition

/-- Controls absorbed in two layers are the combined controls. -/
theorem ControlledGate.flatten_flatten {gate : Gate R} {outer inner : Condition}
    {outerShape innerShape : List Nat} :
    flatten (flatten gate inner.simplified innerShape).toGate outer.simplified outerShape =
      flatten gate (outer.combine inner).simplified (outerShape ++ innerShape) := by
  have merged : outer.simplified.combine inner.simplified = (outer.combine inner).simplified := by
    rw [Condition.combine_simplified, Condition.simplified_combine]
  cases controlled : gate.isControlled with
  | false =>
      rw [Gate.flatten_of_not_isControlled controlled, Gate.flatten_of_not_isControlled controlled,
        ← merged]
      rfl
  | true =>
      obtain ⟨sub, condition, shape, rfl⟩ := Gate.exists_of_isControlled controlled
      rw [← merged]
      exact congrArg₂ (ControlledGate.mk sub) Condition.combine_assoc.symm
        (List.append_assoc _ _ _).symm

namespace Gate

/-- What controls do not change about a gate, absorbed controls do not change either. -/
theorem reading_flatten {α : Type} {reading : Gate R → α} {gate : Gate R} {condition : Condition}
    {shape : List Nat}
    (through : ∀ sub condition shape, reading (.controlled sub condition shape) = reading sub) :
    reading (ControlledGate.flatten gate condition shape).toGate = reading gate := by
  cases controlled : gate.isControlled with
  | false =>
      rw [flatten_of_not_isControlled controlled]
      exact through gate condition shape
  | true =>
      obtain ⟨sub, innerCondition, innerShape, rfl⟩ := exists_of_isControlled controlled
      exact (through sub _ _).trans (through sub _ _).symm

/-- Absorbed controls do not change whether a gate has symbols. -/
theorem isParameterized_flatten {gate : Gate R} {condition : Condition} {shape : List Nat} :
    (ControlledGate.flatten gate condition shape).toGate.isParameterized =
      gate.isParameterized :=
  reading_flatten fun _ _ _ => by rw [isParameterized]

variable [Scalar R]

theorem hasMixture_flatten {gate : Gate R} {condition : Condition} {shape : List Nat} :
    (ControlledGate.flatten gate condition shape).toGate.hasMixture = gate.hasMixture :=
  reading_flatten fun _ _ _ => by simp only [hasMixture]

/-- A gate may be controlled if it is no measurement, and is a mixture or has symbols. -/
theorem checkControllable_eq_ok_iff {gate : Gate R} :
    gate.checkControllable = .ok () ↔
      gate.isMeasurement = false ∧
        ∃ mixes, gate.hasMixture = .ok mixes ∧ (mixes || gate.isParameterized) = true := by
  simp only [checkControllable, bind_eq_ok_iff, liftFault_eq_ok_iff, demand_eq_ok_iff]
  constructor
  · rintro ⟨⟨⟩, admitted, mixture⟩
    exact ⟨by simpa using demand_eq_ok_iff.mp admitted, mixture⟩
  · rintro ⟨unmeasured, mixture⟩
    exact ⟨(), demand_eq_ok_iff.mpr (by simpa using unmeasured), mixture⟩

/-- What building asks of a gate and of the controls put in front of it. -/
structure Admits (gate : Gate R) (condition : Condition) (shape : List Nat) : Prop where
  controllable : gate.checkControllable = .ok ()
  positive : ∀ dimension ∈ shape ++ gate.shape, 0 < dimension
  valid : condition.validate shape = .ok ()

/-- **Stated controls.** A request that states its condition and dimensions, and their number
if it states it, is granted if the gate admits them. -/
theorem control_eq_ok_iff_admits {gate : Gate R} {count : Option Nat} {condition : Condition}
    {shape : List Nat} {built : ControlledGate R}
    (agrees : count.getD shape.length = shape.length) :
    gate.control { count, condition := some condition, shape := some shape } = .ok built ↔
      gate.Admits condition shape ∧
        ControlledGate.flatten gate condition.simplified shape = built := by
  rw [control_eq_ok_iff]
  constructor
  · rintro ⟨controllable, condition, shape, implied, impliedShape, -, -, positive, valid, flat⟩
    cases implied
    cases impliedShape
    exact ⟨⟨controllable, positive, Condition.validate_simplified_iff.mp valid⟩, flat⟩
  · rintro ⟨⟨controllable, positive, valid⟩, flat⟩
    have length := Condition.length_eq_of_validate valid
    have number : ControlRequest.impliedCount
        { count, condition := some condition, shape := some shape } = shape.length := by
      cases count with
      | none => exact length.symm
      | some count => exact agrees
    refine ⟨controllable, condition.simplified, shape, rfl, rfl, ?_, number.symm, positive,
      Condition.validate_simplified_iff.mpr valid, flat⟩
    rw [number, Condition.width_simplified, length]

/-- **Layers of controls.** Controls are admitted in two layers if they are admitted side by
side. The outer layer is asked of the gate that has absorbed the inner one. -/
theorem admits_layers_iff {gate : Gate R} {outer inner : Condition}
    {outerShape innerShape : List Nat} (length : outer.width = outerShape.length) :
    gate.Admits inner innerShape ∧
        (ControlledGate.flatten gate inner.simplified innerShape).toGate.Admits outer outerShape ↔
      gate.Admits (outer.combine inner) (outerShape ++ innerShape) := by
  constructor
  · rintro ⟨innerAdmits, outerAdmits⟩
    have positive := outerAdmits.positive
    rw [shape_flatten, ← List.append_assoc] at positive
    exact ⟨innerAdmits.controllable, positive,
      (Condition.validate_combine_iff length).mpr ⟨outerAdmits.valid, innerAdmits.valid⟩⟩
  · intro admits
    obtain ⟨outerValid, innerValid⟩ := (Condition.validate_combine_iff length).mp admits.valid
    have positive := admits.positive
    rw [List.append_assoc] at positive
    have controllable : (ControlledGate.flatten gate inner.simplified
        innerShape).toGate.checkControllable = .ok () := by
      obtain ⟨-, mixture⟩ := checkControllable_eq_ok_iff.mp admits.controllable
      rw [checkControllable_eq_ok_iff, hasMixture_flatten, isParameterized_flatten]
      exact ⟨rfl, mixture⟩
    refine ⟨⟨admits.controllable, (List.forall_mem_append.mp positive).2, innerValid⟩,
      controllable, ?_, outerValid⟩
    rwa [shape_flatten]

end Gate

end QuditCircuits
