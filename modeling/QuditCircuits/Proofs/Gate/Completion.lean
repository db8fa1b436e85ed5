import QuditCircuits.Proofs.Gate.Admission

/-!
# Completed requests

A request may leave open how many controls there are, their condition and their dimensions. What
is left open follows from the rest, so that every request can be completed. Building looks at the
completed request only: it succeeds if the gate and the completed controls fit
(`ControlRequest.Fits`), and stating what would be inferred changes nothing
(`Gate.control_of_states`). The exception are ones and qubits for so many controls that they cannot
be stored.
-/

namespace QuditCircuits

variable {R : Type}

namespace ControlRequest

/-- The condition of a completed request: as given and simplified, else level one for every
control. -/
def completedCondition (request : ControlRequest) : Condition :=
  match request.condition with
  | some condition => condition.simplified
  | none => .product (.ones request.impliedCount)

/-- The dimensions of a completed request: as given, else qubits. -/
def completedShape (request : ControlRequest) : List Nat :=
  request.shape.getD (List.replicate request.impliedCount 2)

/-- What is inferred for a request can be stored. -/
structure Storable (request : ControlRequest) : Prop where
  condition : request.condition = none →
    request.impliedCount * Conjunction.setWidth < Machine.addressRange
  shape : request.shape = none → request.impliedCount * dimensionWidth < Machine.addressRange

/-- The request `stated` states some of what is inferred for another one. -/
structure States (stated request : ControlRequest) : Prop where
  count : stated.count = request.count ∨ stated.count = some request.impliedCount
  condition : stated.condition = request.condition ∨
    stated.condition = some request.completedCondition
  shape : stated.shape = request.shape ∨ stated.shape = some request.completedShape

/-- What building asks of a gate and of a completed request. -/
structure Fits [Scalar R] (request : ControlRequest) (sub : Gate R) : Prop where
  unmeasured : sub.isMeasurement = false
  mixture : ∃ mixes, sub.hasMixture = .ok mixes ∧ (mixes || sub.isParameterized) = true
  width : request.completedCondition.width = request.impliedCount
  length : request.completedShape.length = request.impliedCount
  positive : ∀ dimension ∈ request.completedShape ++ sub.shape, 0 < dimension
  levels : ∀ term ∈ request.completedCondition.conjunctions,
    ∀ (qudit : Nat) (set : Ascending Nat) (dimension : Nat), term.sets[qudit]? = some set →
      request.completedShape[qudit]? = some dimension → ∀ level ∈ set.toList, level < dimension

variable {stated request : ControlRequest}

/-- The condition that is left out is completed, if there is room for it. -/
theorem impliedCondition_eq : request.impliedCondition =
    if request.condition = none →
      request.impliedCount * Conjunction.setWidth < Machine.addressRange
    then .ok request.completedCondition else .error .capacity := by
  unfold impliedCondition completedCondition
  cases request.condition with
  | some condition => simp
  | none =>
      simp only [Conjunction.ones?, Machine.reserve, true_imp_iff]
      split <;> rfl

theorem impliedShape_eq : request.impliedShape =
    if request.shape = none → request.impliedCount * dimensionWidth < Machine.addressRange
    then .ok request.completedShape else .error .capacity := by
  unfold impliedShape completedShape
  cases request.shape with
  | some shape => simp
  | none =>
      simp only [Machine.reserve, true_imp_iff]
      split <;> rfl

theorem completedCondition_simplified :
    request.completedCondition.simplified = request.completedCondition := by
  unfold completedCondition
  split
  case h_1 => exact Condition.simplified_simplified
  case h_2 => rfl

/-- A request implies as many controls whether or not it states what is inferred. -/
theorem States.impliedCount (states : stated.States request) :
    stated.impliedCount = request.impliedCount := by
  have ones (number : Nat) : (Condition.product (.ones number)).width = number :=
    Conjunction.width_ones
  obtain ⟨count, condition, shape⟩ := request
  obtain ⟨counts | counts, conditions, shapes⟩ := states
  · cases count with
    | some count => rw [ControlRequest.impliedCount, counts, ControlRequest.impliedCount]
    | none =>
        rcases conditions with conditions | conditions <;> rcases shapes with shapes | shapes
        all_goals
          rw [ControlRequest.impliedCount, counts, conditions, shapes]
          cases condition <;> cases shape <;>
            simp [ControlRequest.impliedCount, completedCondition, completedShape, ones,
              Condition.width_simplified]
  · rw [ControlRequest.impliedCount, counts]

/-- A request that states more implies the same condition. -/
theorem States.impliedCondition (states : stated.States request)
    (storable : request.condition = none →
      request.impliedCount * Conjunction.setWidth < Machine.addressRange) :
    stated.impliedCondition = .ok request.completedCondition := by
  rcases states.condition with same | same
  · rw [ControlRequest.impliedCondition, same, states.impliedCount,
      ← ControlRequest.impliedCondition, impliedCondition_eq, if_pos storable]
  · rw [ControlRequest.impliedCondition, same]
    exact congrArg Except.ok completedCondition_simplified

theorem States.impliedShape (states : stated.States request)
    (storable : request.shape = none →
      request.impliedCount * dimensionWidth < Machine.addressRange) :
    stated.impliedShape = .ok request.completedShape := by
  rcases states.shape with same | same
  · rw [ControlRequest.impliedShape, same, states.impliedCount, ← ControlRequest.impliedShape,
      impliedShape_eq, if_pos storable]
  · rw [ControlRequest.impliedShape, same]

end ControlRequest

variable [Scalar R] {sub : Gate R} {stated request : ControlRequest}

namespace Gate

/-- **Building.** A gate is controlled as requested if it fits the completed request and what is
inferred can be stored; the completed controls are then put in front of it. -/
theorem control_eq_ok_iff_fits {built : ControlledGate R} :
    sub.control request = .ok built ↔ request.Fits sub ∧ request.Storable ∧
      ControlledGate.flatten sub request.completedCondition request.completedShape = built := by
  rw [control_eq_ok_iff, checkControllable_eq_ok_iff]
  constructor
  · rintro ⟨⟨unmeasured, mixture⟩, _, _, implied, impliedShape, width, length, positive, valid,
      flat⟩
    rw [ControlRequest.impliedCondition_eq] at implied
    rw [ControlRequest.impliedShape_eq] at impliedShape
    split at implied
    case isFalse => cases implied
    case isTrue condition =>
      split at impliedShape
      case isFalse => cases impliedShape
      case isTrue shape =>
        cases implied
        cases impliedShape
        obtain ⟨-, levels⟩ := Condition.validate_eq_ok_iff_levels.mp valid
        exact ⟨⟨unmeasured, mixture, width, length, positive, levels⟩, ⟨condition, shape⟩, flat⟩
  · rintro ⟨fits, storable, flat⟩
    have valid : request.completedCondition.validate request.completedShape = .ok () :=
      Condition.validate_eq_ok_iff_levels.mpr ⟨fits.length.trans fits.width.symm, fits.levels⟩
    refine ⟨⟨fits.unmeasured, fits.mixture⟩, _, _, ?_, ?_, fits.width, fits.length,
      fits.positive, valid, flat⟩
    · rw [ControlRequest.impliedCondition_eq, if_pos storable.condition]
    · rw [ControlRequest.impliedShape_eq, if_pos storable.shape]

/-- A condition for another number of controls is refused before the dimensions are looked at. -/
theorem control_eq_controlCount {condition : Condition}
    (controllable : sub.checkControllable = .ok ())
    (implied : request.impliedCondition = .ok condition)
    (width : condition.width ≠ request.impliedCount) :
    sub.control request = .error (.controlCount request.impliedCount condition.width) := by
  rw [control, controllable, implied]
  change (demand _ _ >>= _) = _
  rw [demand, beq_false_of_ne width]
  rfl

/-- Without room for the condition building ends in a fault. -/
theorem control_eq_fault_of_condition {fault : Fault}
    (controllable : sub.checkControllable = .ok ())
    (missing : request.impliedCondition = .error fault) :
    sub.control request = .error (.fault fault) := by
  rw [control, controllable, missing]
  rfl

/-- Without room for the dimensions building ends in a fault. -/
theorem control_eq_fault_of_shape {condition : Condition} {fault : Fault}
    (controllable : sub.checkControllable = .ok ())
    (implied : request.impliedCondition = .ok condition)
    (width : condition.width = request.impliedCount)
    (missing : request.impliedShape = .error fault) :
    sub.control request = .error (.fault fault) := by
  rw [control, controllable, implied, missing]
  change (demand _ _ >>= _) = _
  rw [demand, width, beq_self_eq_true]
  rfl

/-- **Stated requests.** What would be inferred may be stated: the result is the same, or the same
refusal, unless it could not be inferred for lack of storage. -/
theorem control_of_states (states : stated.States request) :
    sub.control stated = sub.control request ∨
      ¬request.Storable ∧ sub.control request = .error (.fault .capacity) := by
  cases controllable : sub.checkControllable with
  | error reason =>
      left
      rw [control, control, controllable]
      rfl
  | ok =>
      by_cases condition : request.condition = none →
        request.impliedCount * Conjunction.setWidth < Machine.addressRange
      · have implied := states.impliedCondition condition
        have inferred : request.impliedCondition = .ok request.completedCondition := by
          rw [ControlRequest.impliedCondition_eq, if_pos condition]
        by_cases width : request.completedCondition.width = request.impliedCount
        · by_cases shape : request.shape = none →
            request.impliedCount * ControlRequest.dimensionWidth < Machine.addressRange
          · have impliedShape := states.impliedShape shape
            have inferredShape : request.impliedShape = .ok request.completedShape := by
              rw [ControlRequest.impliedShape_eq, if_pos shape]
            left
            simp only [control, states.impliedCount, implied, inferred, impliedShape,
              inferredShape]
          · right
            refine ⟨fun storable => shape storable.shape, ?_⟩
            apply control_eq_fault_of_shape controllable inferred width
            rw [ControlRequest.impliedShape_eq, if_neg shape]
        · left
          rw [control_eq_controlCount controllable inferred width,
            control_eq_controlCount controllable implied (by rwa [states.impliedCount]),
            states.impliedCount]
      · right
        refine ⟨fun storable => condition storable.condition, ?_⟩
        apply control_eq_fault_of_condition controllable
        rw [ControlRequest.impliedCondition_eq, if_neg condition]

/-- Any number of qubits at level one fits in front of a gate that may be controlled. -/
theorem fits_of_count {count : Nat} (controllable : sub.checkControllable = .ok ())
    (positive : ∀ dimension ∈ sub.shape, 0 < dimension) :
    ({ count := some count } : ControlRequest).Fits sub := by
  obtain ⟨unmeasured, mixture⟩ := checkControllable_eq_ok_iff.mp controllable
  refine ⟨unmeasured, mixture, Conjunction.width_ones, List.length_replicate, ?_, ?_⟩
  · refine List.forall_mem_append.mpr ⟨fun dimension member => ?_, positive⟩
    rw [List.eq_of_mem_replicate member]
    exact Nat.two_pos
  · intro term member qudit set dimension here there level inside
    rw [List.mem_singleton.mp member] at here
    rw [List.eq_of_mem_replicate (List.mem_of_getElem? here)] at inside
    rw [List.eq_of_mem_replicate (List.mem_of_getElem? there), List.mem_singleton.mp inside]
    exact Nat.one_lt_two

end Gate

/-- **Building depends on the completed request.** A gate is controlled if it is no measurement,
is a mixture or has symbols, the completed condition and the completed dimensions are for as many
qudits as there are controls, no qudit is without levels and no accepted level exceeds its qudit,
provided that ones and qubits which are inferred can be stored. The result is the gate under the
completed controls. A request that states some of what is inferred has the same result, or is
refused for the same reason, unless what it states could not be inferred for lack of storage. -/
theorem building_depends_on_completion :
    (∀ (sub : Gate R) (request : ControlRequest),
      ((∃ built, sub.control request = .ok built) ↔ request.Fits sub ∧ request.Storable) ∧
      ∀ built, sub.control request = .ok built →
        built = .flatten sub request.completedCondition request.completedShape) ∧
    ∀ (sub : Gate R) (stated request : ControlRequest), stated.States request →
      sub.control stated = sub.control request ∨
        ¬request.Storable ∧ sub.control request = .error (.fault .capacity) := by
  refine ⟨fun sub request => ⟨⟨?_, ?_⟩, ?_⟩, ?_⟩
  · rintro ⟨built, success⟩
    obtain ⟨fits, storable, -⟩ := Gate.control_eq_ok_iff_fits.mp success
    exact ⟨fits, storable⟩
  · rintro ⟨fits, storable⟩
    exact ⟨_, Gate.control_eq_ok_iff_fits.mpr ⟨fits, storable, rfl⟩⟩
  · intro built success
    obtain ⟨-, -, flat⟩ := Gate.control_eq_ok_iff_fits.mp success
    exact flat.symm
  · intro sub stated request states
    exact Gate.control_of_states states

/-- Two qubits asked for by their dimensions, and with their number and their ones stated. -/
theorem building_depends_on_completion_pair :
    let request : ControlRequest := { shape := some [2, 2] }
    let stated : ControlRequest :=
      { count := some 2, condition := some (.product (.ones 2)), shape := some [2, 2] }
    request.Storable ∧ stated.States request ∧
      (Gate.x : Gate Float).control stated = Gate.x.control request ∧
      ∃ built, (Gate.x : Gate Float).control request = .ok built ∧
        built = .flatten .x (.product (.ones 2)) [2, 2] := by
  intro request stated
  have storable : request.Storable := ⟨fun _ => by decide, nofun⟩
  have states : stated.States request := ⟨.inr rfl, .inr rfl, .inl rfl⟩
  obtain ⟨success, unchanged⟩ := building_depends_on_completion (R := Float)
  refine ⟨storable, states, ?_, _, rfl, (success .x request).2 _ rfl⟩
  rcases unchanged .x stated request states with same | ⟨large, -⟩
  · exact same
  · exact absurd storable large

/-- Ones for half as many controls as there are words cannot be stored, though nothing else speaks
against them. -/
theorem building_faults_on_large_counts :
    let request : ControlRequest := { count := some 9223372036854775808 }
    request.Fits (.x : Gate Float) ∧
      (Gate.x : Gate Float).control request = .error (.fault .capacity) := by
  intro request
  have controllable : (Gate.x : Gate Float).checkControllable = .ok () := rfl
  refine ⟨Gate.fits_of_count controllable (by decide), ?_⟩
  apply Gate.control_eq_fault_of_condition controllable
  rw [ControlRequest.impliedCondition_eq, if_neg]
  intro small
  exact absurd (small rfl) (by decide)

end QuditCircuits
