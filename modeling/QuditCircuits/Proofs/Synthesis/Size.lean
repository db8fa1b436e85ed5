import QuditCircuits.Proofs.Synthesis.Extent

/-!
# The size of a construction

A plan has at most linearly many flips: a ladder has four for every control beyond the second,
and the halves of a split are ladders again (`Flip.length_le_of_plan`). Every control of a
construction costs two plans, so the steps, and with them the operations of a synthesis, are
quadratic in the number of controls (`RotationStep.totalWeight_of_rotate`).
-/

namespace QuditCircuits

namespace Flip

variable {Q : Type}

@[simp] theorem length_slope {control workspace : Nat → Q} {height : Nat} :
    (slope control workspace height).length = 2 * height + 1 := by
  induction height with
  | zero => rfl
  | succ height ih =>
      rw [slope, List.length_cons, List.length_append, ih, List.length_singleton]
      omega

/-- A plan that is not split has at most four flips for every control beyond the second. -/
theorem length_le_of_plan_of_ne_split {controls borrowed : List Q} {target : Q}
    {flips : List (Flip Q)} (planned : plan controls target borrowed = .ok flips)
    (whole : Method.choose controls.length borrowed.length ≠ .split) :
    flips.length ≤ 4 * (controls.length - 2) + 1 := by
  revert planned
  fun_cases plan controls target borrowed with
  | case1 method =>
      intro planned
      cases planned
      exact Nat.le_add_left 1 _
  | case2 method =>
      intro planned
      obtain ⟨_, _, equal⟩ := bind_eq_ok_iff.mp planned
      cases equal
      exact Nat.le_add_left 1 _
  | case3 method =>
      intro planned
      simp only [bind_eq_ok_iff] at planned
      obtain ⟨_, _, _, _, equal⟩ := planned
      cases equal
      exact Nat.le_add_left 1 _
  | case4 method =>
      intro planned
      cases planned
      exact Nat.le_add_left 1 _
  | case5 method =>
      intro planned
      have large := Method.choose_eq_ladder_iff.mp method
      have length : controls.length = controls.length - 3 + 3 := by omega
      rw [ladderPass_eq_ok length (by omega)] at planned
      cases planned
      simp only [List.length_append, List.length_cons, length_slope]
      omega
  | case6 method => exact absurd method whole
  | case7 method => exact absurd method whole

/-- The halves of a split, which each borrow the other, are not split. -/
theorem choose_halves_ne_split {front back others : Nat}
    (half : front = splitPoint (front + back) (others + 1)) :
    Method.choose front (back + (others + 1)) ≠ .split ∧
      Method.choose (back + 1) (front + others) ≠ .split := by
  simp only [ne_eq, Method.choose_eq_split_iff]
  unfold splitPoint at half
  omega

/-- The plan of a split repeats the plans of its two halves. -/
theorem exists_halves_of_plan {controls borrowed : List Q} {target : Q} {flips : List (Flip Q)}
    (planned : plan controls target borrowed = .ok flips)
    (split : Method.choose controls.length borrowed.length = .split) :
    ∃ front back pivot others ontoPivot fromPivot, borrowed = pivot :: others ∧
      front.length = splitPoint controls.length borrowed.length ∧ controls = front ++ back ∧
      plan front pivot (back ++ target :: others) = .ok ontoPivot ∧
      plan (back ++ [pivot]) target (front ++ others) = .ok fromPivot ∧
      flips = (ontoPivot ++ fromPivot) ++ (ontoPivot ++ fromPivot) := by
  revert planned
  fun_cases plan controls target borrowed with
  | case1 method | case2 method | case3 method | case4 method | case5 method =>
      cases method.symm.trans split
  | case6 _ fault parts =>
      rw [Machine.splitAt_eq_ok (Nat.le_of_lt (splitPoint_bounds split).2)] at parts
      cases parts
  | case7 _ front back parts =>
      intro planned
      obtain ⟨halves, half, pivot, others, rfl⟩ := exists_pivot_of_split split parts
      simp only [nth_zero, splitAt_one, bind_eq_ok_iff] at planned
      obtain ⟨_, ⟨⟩, ⟨_, _⟩, ⟨⟩, ontoPivot, ontoOk, fromPivot, fromOk, equal⟩ := planned
      cases equal
      exact ⟨front, back, pivot, others, ontoPivot, fromPivot, rfl, half, halves, ontoOk, fromOk,
        rfl⟩

/-- **Plans are linear.** A plan has at most eight flips for every control beyond the second. -/
theorem length_le_of_plan {controls borrowed : List Q} {target : Q} {flips : List (Flip Q)}
    (planned : plan controls target borrowed = .ok flips) :
    flips.length ≤ 8 * (controls.length - 2) + 1 := by
  by_cases split : Method.choose controls.length borrowed.length = .split
  · obtain ⟨front, back, pivot, others, ontoPivot, fromPivot, rfl, half, rfl, ontoOk, fromOk,
      rfl⟩ := exists_halves_of_plan planned split
    have bounds := splitPoint_bounds split
    rw [List.length_append, List.length_cons] at half bounds
    have halves := choose_halves_ne_split half
    have onto := length_le_of_plan_of_ne_split ontoOk (by simpa using halves.1)
    have fromHalf := length_le_of_plan_of_ne_split fromOk (by simpa using halves.2)
    simp only [List.length_append, List.length_singleton] at onto fromHalf ⊢
    omega
  · have few := length_le_of_plan_of_ne_split planned split
    omega

end Flip

/-! ## Steps -/

namespace RotationStep

section Weight

variable {M Q : Type}

/-- The largest number of pulses that a step becomes. -/
def weight : RotationStep M Q → Nat
  | .applyIf _ _ _ => 8
  | .apply _ _ | .flip _ | .cnot _ _ => 1

/-- The largest number of pulses that a list of steps becomes. -/
def totalWeight (steps : List (RotationStep M Q)) : Nat :=
  (steps.map weight).sum

@[simp] theorem totalWeight_nil : totalWeight ([] : List (RotationStep M Q)) = 0 := rfl

@[simp] theorem totalWeight_cons {step : RotationStep M Q} {steps : List (RotationStep M Q)} :
    totalWeight (step :: steps) = step.weight + totalWeight steps := rfl

@[simp] theorem totalWeight_append {first second : List (RotationStep M Q)} :
    totalWeight (first ++ second) = totalWeight first + totalWeight second := by
  rw [totalWeight, List.map_append, List.sum_append]
  rfl

variable [RootedOperator M]

/-- Up to two controls cost a fixed number of gates. -/
theorem totalWeight_of_rotate_small {operator : M} {controls : List Q}
    (few : controls.length ≤ 2) {target : Q} {steps : List (RotationStep M Q)}
    (built : rotate operator controls target [] = .ok steps) : totalWeight steps ≤ 26 := by
  match controls with
  | [] =>
      cases rotate_nil.symm.trans built
      simp [weight]
  | [control] =>
      cases rotate_singleton.symm.trans built
      simp [weight]
  | [first, second] =>
      cases rotate_pair.symm.trans built
      exact Nat.le_refl 26
  | first :: second :: third :: others => exact absurd few (by simp)

/-- A flip under two controls becomes three controlled operators and two flips. -/
theorem totalWeight_of_steps {flip : Flip Q} (few : flip.controls.length ≤ 2)
    {steps : List (RotationStep M Q)} (expanded : flip.steps = .ok steps) :
    totalWeight steps ≤ 26 := by
  cases flip with
  | free target =>
      cases expanded
      simp [weight]
  | cnot control target =>
      cases expanded
      simp [weight]
  | toffoli first second target => exact totalWeight_of_rotate_small few expanded
  | many controls target => exact totalWeight_of_rotate_small few expanded

/-- Each flip with up to two controls costs a fixed number of gates. -/
theorem totalWeight_flatten_le {flips : List (Flip Q)}
    (few : ∀ flip ∈ flips, flip.controls.length ≤ 2) {lists : List (List (RotationStep M Q))}
    (expanded : flips.mapM Flip.steps = .ok lists) :
    totalWeight lists.flatten ≤ 26 * flips.length := by
  induction flips generalizing lists with
  | nil =>
      cases expanded
      exact Nat.le_refl 0
  | cons flip flips ih =>
      obtain ⟨here, rest⟩ := List.forall_mem_cons.mp few
      simp only [List.mapM_cons, bind_eq_ok_iff] at expanded
      obtain ⟨steps, stepsOk, others, othersOk, equal⟩ := expanded
      cases equal
      have first := totalWeight_of_steps here stepsOk
      have remaining := ih rest othersOk
      rw [List.flatten_cons, totalWeight_append, List.length_cons]
      omega

/-- **Constructions are quadratic**: every control but the first adds two controlled operators
and two plans of linear size. -/
theorem totalWeight_of_rotate {operator : M} {controls : List Q} (some : controls ≠ [])
    {target : Q} {borrowed : List Q} {steps : List (RotationStep M Q)}
    (built : rotate operator controls target borrowed = .ok steps) :
    totalWeight steps ≤ 250 * controls.length ^ 2 := by
  induction controls using List.reverseRecOn generalizing operator borrowed steps with
  | nil => exact absurd rfl some
  | append_singleton rest last ih =>
      by_cases single : rest = []
      · subst single
        cases rotate_singleton.symm.trans built
        simp [weight]
      · obtain ⟨flips, planned, lists, expanded, remaining, remainingOk, rfl⟩ :=
          (RotationStep.rotate_append_singleton_eq_ok_iff single).mp built
        have positive : 0 < rest.length := List.length_pos_iff.mpr single
        have linear := Flip.length_le_of_plan planned
        have flipped := totalWeight_flatten_le (fun flip member =>
          Flip.controls_length_le_two_of_plan (List.cons_ne_nil _ _) planned member) expanded
        have smaller := ih single remainingOk
        have square : (rest.length + 1) ^ 2 = rest.length ^ 2 + 2 * rest.length + 1 := by ring
        simp only [totalWeight_cons, totalWeight_append, weight, List.length_append,
          List.length_singleton, square]
        omega

end Weight

/-! ## Pulses -/

variable {R : Type} [Scalar R] {Q : Type}

theorem length_turnUnlessSmall_le (tolerance : R) (family : AngleFamily) (angle : R) (target : Q) :
    (Pulse.turnUnlessSmall tolerance family angle target).length ≤ 1 := by
  unfold Pulse.turnUnlessSmall
  split
  · exact Nat.le_refl 1
  · exact Nat.zero_le 1

/-- A step emits no more pulses than its weight. -/
theorem length_pulses_le (tolerance : R) (step : RotationStep (Unitary R) Q) :
    (step.pulses tolerance).length ≤ step.weight := by
  cases step with
  | applyIf operator control target =>
      have turn (family : AngleFamily) (angle : R) (target : Q) :=
        length_turnUnlessSmall_le tolerance family angle target
      dsimp only [pulses, weight]
      split
      · exact Nat.le_add_left 1 7
      · simp only [Pulse.controlledTurns, List.length_append, List.length_cons]
        grind
  | apply _ _ | flip _ | cnot _ _ => exact Nat.le_refl 1

theorem length_flatMap_pulses_le (tolerance : R) (steps : List (RotationStep (Unitary R) Q)) :
    (steps.flatMap (pulses tolerance)).length ≤ totalWeight steps := by
  rw [List.length_flatMap, totalWeight]
  exact List.sum_le_sum fun step _ => length_pulses_le tolerance step

end RotationStep

/-! ## Operations -/

variable {R : Type} [Scalar R]

/-- **Synthesis is quadratic.** A 2×2 matrix under any positive number of qubits is synthesized
for every qubit as its target, and with at most `250 * n ^ 2` operations for `n` controls,
whatever turns are left out and whichever matrices are taken for exchanges. -/
theorem synthesis_is_quadratic (matrix : Unitary R) (square : matrix.rows = 2 ∧ matrix.cols = 2)
    (controls : List Qudit) (some : controls ≠ [])
    (levels : ∀ control ∈ controls, control.dimension = 2) (target : Qudit) (tolerance : R) :
    (target.dimension = 2 →
      ∃ operations, synthesize matrix controls target tolerance = .ok operations) ∧
    ∀ operations, synthesize matrix controls target tolerance = .ok operations →
      operations.length ≤ 250 * controls.length ^ 2 := by
  refine ⟨fun qubit => ?_, fun operations built => ?_⟩
  · have corner : 2 ≤ matrix.rows ∧ 2 ≤ matrix.cols :=
      ⟨Nat.le_of_eq square.1.symm, Nat.le_of_eq square.2.symm⟩
    exact exists_synthesize tolerance corner
      (List.forall_mem_append.mpr ⟨levels, List.forall_mem_singleton.mpr qubit⟩)
  · obtain ⟨-, steps, stepsOk, found, mapped, rfl⟩ := synthesize_eq_ok_iff.mp built
    calc (found.filterMap id).length
        ≤ found.length := List.length_filterMap_le _ _
      _ = (steps.flatMap (RotationStep.pulses tolerance)).length := length_of_mapM mapped
      _ ≤ RotationStep.totalWeight steps := RotationStep.length_flatMap_pulses_le _ _
      _ ≤ 250 * controls.length ^ 2 := RotationStep.totalWeight_of_rotate some stepsOk

/-- An exchange under three controls. -/
theorem synthesis_is_quadratic_three :
    let exchange : Unitary Float := Unitary.flip
    (exchange.rows = 2 ∧ exchange.cols = 2) ∧ Qudit.qubits 3 ≠ [] ∧
      (∀ control ∈ Qudit.qubits 3, control.dimension = 2) ∧
      ∃ operations, synthesize exchange (Qudit.qubits 3) (.qubit 3) 0 = .ok operations ∧
        operations.length ≤ 2250 := by
  intro exchange
  have square : exchange.rows = 2 ∧ exchange.cols = 2 := ⟨rfl, rfl⟩
  have some : Qudit.qubits 3 ≠ [] := List.cons_ne_nil _ _
  have levels : ∀ control ∈ Qudit.qubits 3, control.dimension = 2 := by decide
  obtain ⟨succeeds, few⟩ :=
    synthesis_is_quadratic exchange square (Qudit.qubits 3) some levels (.qubit 3) 0
  obtain ⟨operations, built⟩ := succeeds rfl
  exact ⟨square, some, levels, operations, built, few operations built⟩

end QuditCircuits
