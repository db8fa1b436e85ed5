import QuditCircuits.Proofs.Gate.Resolution

/-!
# Gates that are built again

Building simplifies the condition, absorbs controls and asks the gate to admit them. What it
returns has nothing left to simplify or to absorb, and it is admitted as it stands
(`ControlledGate.Standing`), whatever has been absorbed on the way. So building it again from its
parts returns the same gate. Of gates without controls only turns by a number and tables of phases
have powers; these act on the same qudits and are as good to control, so that a power of a
controlled gate stands where the gate does.
-/

namespace QuditCircuits

variable {R : Type} [Scalar R]

/-! ## Stored equality -/

theorem all_zip_self {α : Type} {same : α → α → Bool} (reflexive : ∀ item, same item item = true)
    {items : List α} : ((items.zip items).all fun pair => same pair.1 pair.2) = true := by
  induction items with
  | nil => rfl
  | cons item items ih =>
      rw [List.zip_cons_cons, List.all_cons, reflexive item, ih]
      rfl

mutual

/-- Every gate is stored like itself if every number is. -/
theorem Gate.same_self (reflexive : ∀ number : R, Scalar.same number number = true)
    (gate : Gate R) : gate.same gate = true := by
  match gate with
  | .angle family (.value number) => simp [Gate.same, Parameter.same, reflexive]
  | .angle family (.symbol name) => simp [Gate.same, Parameter.same]
  | .diagonal table =>
      rw [Gate.same, beq_self_eq_true, Bool.true_and]
      exact all_zip_self reflexive
  | .matrix entries shape =>
      have amplitude (entry : Amplitude R) : entry.same entry = true := by
        rw [Amplitude.same, reflexive, reflexive, Bool.and_self]
      simp only [Gate.same, DenseMatrix.same, beq_self_eq_true, Bool.true_and]
      exact all_zip_self amplitude
  | .bitFlip probability => exact reflexive probability
  | .controlled sub condition shape => simp [Gate.same, sub.same_self reflexive]
  | .composite shape body => simp [Gate.same, body.same_self reflexive]
  | .measurement _ _ | .idle _ => simp [Gate.same]
  | .x | .cx | .reset | .phaseFlip => rfl

theorem Circuit.same_self (reflexive : ∀ number : R, Scalar.same number number = true)
    (circuit : Circuit R) : circuit.same circuit = true := by
  match circuit with
  | .done => rfl
  | .step gate positions rest =>
      simp [Circuit.same, gate.same_self reflexive, rest.same_self reflexive]

end

/-! ## Gates that stand -/

/-- A controlled gate that building returns as it is: there is nothing to simplify or to absorb,
and the applied gate admits the controls. -/
structure ControlledGate.Standing (gate : ControlledGate R) : Prop where
  uncontrolled : gate.sub.isControlled = false
  simplified : gate.condition.simplified = gate.condition
  admits : gate.sub.Admits gate.condition gate.shape

namespace ControlledGate

variable {gate : ControlledGate R}

/-- A gate that stands is built again from its parts. -/
theorem Standing.rebuild (standing : gate.Standing) : gate.rebuild = .ok gate := by
  apply (Gate.control_eq_ok_iff_admits rfl).mpr
  refine ⟨standing.admits, ?_⟩
  rw [standing.simplified, Gate.flatten_of_not_isControlled standing.uncontrolled]

/-- What building returns stands, however many controls it has absorbed. -/
theorem standing_of_control {sub : Gate R} {request : ControlRequest} (wellFormed : sub.WellFormed)
    (built : sub.control request = .ok gate) : gate.Standing := by
  obtain ⟨-, uncontrolled, unmeasured, positive, valid, simplified⟩ :=
    Gate.wellFormed_of_control wellFormed built
  have controllable := Gate.checkControllable_of_control built unmeasured
  exact ⟨uncontrolled, simplified, controllable, positive, valid⟩

/-- The same controls stand in front of another gate on the same qudits. -/
theorem Standing.replace (standing : gate.Standing) {power : Gate R}
    (uncontrolled : power.isControlled = false) (shape : power.shape = gate.sub.shape)
    (controllable : power.checkControllable = .ok ()) :
    (⟨power, gate.condition, gate.shape⟩ : ControlledGate R).Standing := by
  refine ⟨uncontrolled, standing.simplified, controllable, ?_, standing.admits.valid⟩
  rw [shape]
  exact standing.admits.positive

end ControlledGate

/-! ## Powers -/

/-- The matrix of a table of phases needs the same storage whatever the phases are. -/
theorem Gate.checkControllable_diagonal_map {table : PhaseTable R} {transform : R → R}
    (controllable : (Gate.diagonal table).checkControllable = .ok ()) :
    (Gate.diagonal (table.map transform)).checkControllable = .ok () := by
  have same : (Gate.diagonal (table.map transform)).hasMixture =
      (Gate.diagonal table).hasMixture := by
    simp only [hasMixture, hasUnitary, unitary, PhaseTable.map, Array.size_map]
    cases Machine.reserve (table.angles.size * table.angles.size)
      DenseMatrix.amplitudeWidth <;> rfl
  obtain ⟨-, mixture⟩ := checkControllable_eq_ok_iff.mp controllable
  rw [checkControllable_eq_ok_iff, same]
  exact ⟨rfl, mixture⟩

/-- A gate without controls that may be controlled has powers that may be, or none. -/
theorem Gate.exists_pow_of_not_isControlled {gate : Gate R} (exponent : R)
    (uncontrolled : gate.isControlled = false) (controllable : gate.checkControllable = .ok ()) :
    ∃ power?, gate.pow exponent = .ok power? ∧ ∀ power, power? = some power →
      power.isControlled = false ∧ power.shape = gate.shape ∧
        power.checkControllable = .ok () := by
  cases gate
  case angle family parameter =>
    refine ⟨_, rfl, ?_⟩
    intro power raised
    obtain ⟨scaled, -, rfl⟩ := Option.map_eq_some_iff.mp raised
    exact ⟨rfl, rfl, checkControllable_angle family scaled⟩
  case diagonal table =>
    refine ⟨_, rfl, ?_⟩
    rintro _ ⟨⟩
    exact ⟨rfl, rfl, checkControllable_diagonal_map controllable⟩
  case controlled => cases uncontrolled
  all_goals exact ⟨none, rfl, nofun⟩

/-- **Powers.** A power of a gate that stands is the power of what it applies, under the same
controls; building it again never fails. -/
theorem ControlledGate.Standing.exists_pow {gate : ControlledGate R} (standing : gate.Standing)
    (exponent : R) :
    ∃ power?, gate.sub.pow exponent = .ok power? ∧
      (∀ power, power? = some power →
        (⟨power, gate.condition, gate.shape⟩ : ControlledGate R).Standing) ∧
      gate.toGate.pow exponent = .ok (power?.map fun power =>
        (⟨power, gate.condition, gate.shape⟩ : ControlledGate R).toGate) := by
  obtain ⟨power?, raised, stays⟩ := Gate.exists_pow_of_not_isControlled exponent
    standing.uncontrolled standing.admits.controllable
  have stands : ∀ power, power? = some power →
      (⟨power, gate.condition, gate.shape⟩ : ControlledGate R).Standing := by
    intro power same
    obtain ⟨uncontrolled, shape, controllable⟩ := stays power same
    exact standing.replace uncontrolled shape controllable
  refine ⟨power?, raised, stands, ?_⟩
  rw [toGate, Gate.pow, raised]
  cases power? with
  | none => rfl
  | some power =>
      have built : power.control { condition := some gate.condition, shape := some gate.shape } =
          .ok ⟨power, gate.condition, gate.shape⟩ :=
        (stands power rfl).rebuild
      change (do return (← GateResult.allowed (power.control _)).map ControlledGate.toGate) = _
      rw [built]
      rfl

/-- **Rebuilding is lossless.** A controlled gate that has been built, around any gate that
operations reach and so with any number of absorbed controls, is built again from its parts as the
same gate. It has a power if and only if the gate that it applies has one, which is then under the
same controls, and building that again succeeds. -/
theorem rebuilding_is_lossless {sub : Gate R} {request : ControlRequest} {gate : ControlledGate R}
    (reached : sub.Reachable) (built : sub.control request = .ok gate) :
    gate.rebuild = .ok gate ∧
    ((∀ number : R, Scalar.same number number = true) → gate.same gate = true) ∧
    ∀ exponent : R, ∃ power?, gate.sub.pow exponent = .ok power? ∧
      (∀ power, power? = some power →
        (⟨power, gate.condition, gate.shape⟩ : ControlledGate R).rebuild =
          .ok ⟨power, gate.condition, gate.shape⟩) ∧
      gate.toGate.pow exponent = .ok (power?.map fun power =>
        (⟨power, gate.condition, gate.shape⟩ : ControlledGate R).toGate) := by
  have standing := ControlledGate.standing_of_control reached.wellFormed built
  refine ⟨standing.rebuild, ?_, ?_⟩
  · intro reflexive
    exact gate.toGate.same_self reflexive
  · intro exponent
    obtain ⟨power?, raised, stands, powered⟩ := standing.exists_pow exponent
    exact ⟨power?, raised, fun power same => (stands power same).rebuild, powered⟩

/-- A rotation that has absorbed a control at level zero under a sum of two alternatives. -/
theorem rebuilding_is_lossless_absorbed :
    let either : Condition := .sum {
      width := 2
      terms := .ofList [.ofSpecs [.set [0, 2], .value 1], .ofSpecs [.value 2, .set [0, 1]]]
      nonempty := by decide
      uniform := by decide }
    let rotation : Gate Float := .angle .rz (.value 0.5)
    let inner : ControlledGate Float := ⟨rotation, .product (.ofSpecs [.value 0]), [2]⟩
    inner.toGate.Reachable ∧ ∃ gate : ControlledGate Float,
      inner.toGate.control { condition := some either, shape := some [3, 2] } = .ok gate ∧
      gate.rebuild = .ok gate ∧ gate.same gate = true ∧ ∃ power,
        gate.toGate.pow 2 =
          .ok (some (⟨power, gate.condition, gate.shape⟩ : ControlledGate Float).toGate) := by
  intro either rotation inner
  have innerBuilt : rotation.control { condition := some inner.condition } = .ok inner := rfl
  have reached : inner.toGate.Reachable := .control (.primitive rfl) innerBuilt
  have built : inner.toGate.control { condition := some either, shape := some [3, 2] } = .ok _ :=
    rfl
  obtain ⟨rebuilt, same, powers⟩ := rebuilding_is_lossless reached built
  refine ⟨reached, _, built, rebuilt, same fun number => beq_self_eq_true number.toBits, ?_⟩
  obtain ⟨_, raised, -, powered⟩ := powers 2
  cases raised
  exact ⟨_, powered⟩

end QuditCircuits
