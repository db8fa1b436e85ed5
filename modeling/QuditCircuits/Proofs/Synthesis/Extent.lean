import QuditCircuits.Proofs.Gate.Reachable
import QuditCircuits.Proofs.Synthesis.Plan
import QuditCircuits.Synthesis.Pulse

/-!
# The extent of a construction

Plans of flips, steps of the square-root construction and pulses exist for all lists of
qubits, also where qubits repeat, and touch no other qubits
(`Flip.exists_plan_within`, `RotationStep.exists_rotate_within`). So the construction of a
matrix under controls succeeds for all qubits (`exists_synthesize`).
-/

namespace QuditCircuits

/-- A mapping that succeeds on every item succeeds on the list. -/
theorem exists_mapM {ε α β : Type} {transform : α → Except ε β} {holds : β → Prop}
    {items : List α}
    (each : ∀ item ∈ items, ∃ result, transform item = .ok result ∧ holds result) :
    ∃ results, items.mapM transform = .ok results ∧ ∀ result ∈ results, holds result := by
  induction items with
  | nil => exact ⟨[], rfl, List.forall_mem_nil _⟩
  | cons item items ih =>
      obtain ⟨here, rest⟩ := List.forall_mem_cons.mp each
      obtain ⟨result, resultOk, resultHolds⟩ := here
      obtain ⟨results, resultsOk, resultsHold⟩ := ih rest
      refine ⟨result :: results, ?_, List.forall_mem_cons.mpr ⟨resultHolds, resultsHold⟩⟩
      rw [List.mapM_cons, resultOk, resultsOk]
      rfl

theorem mapM_congr {ε α β : Type} {first second : α → Except ε β} {items : List α}
    (same : ∀ item ∈ items, first item = second item) : items.mapM first = items.mapM second := by
  induction items with
  | nil => rfl
  | cons item items ih =>
      obtain ⟨head, rest⟩ := List.forall_mem_cons.mp same
      rw [List.mapM_cons, List.mapM_cons, head, ih rest]

/-- A mapping fails where it fails on an item. -/
theorem exists_of_mapM_eq_error {ε α β : Type} {transform : α → Except ε β} {items : List α}
    {reason : ε} (failed : items.mapM transform = .error reason) :
    ∃ item ∈ items, transform item = .error reason := by
  induction items with
  | nil => cases failed
  | cons item items ih =>
      rw [List.mapM_cons] at failed
      rcases bind_eq_error_iff.mp failed with here | ⟨_, _, failed⟩
      · exact ⟨item, List.mem_cons_self, here⟩
      · rcases bind_eq_error_iff.mp failed with later | ⟨_, _, built⟩
        · obtain ⟨other, member, same⟩ := ih later
          exact ⟨other, List.mem_cons_of_mem _ member, same⟩
        · cases built

theorem length_of_mapM {ε α β : Type} {transform : α → Except ε β} {items : List α}
    {results : List β} (mapped : items.mapM transform = .ok results) :
    results.length = items.length := by
  induction items generalizing results with
  | nil =>
      cases mapped
      rfl
  | cons item items ih =>
      simp only [List.mapM_cons, bind_eq_ok_iff] at mapped
      obtain ⟨_, _, others, othersOk, equal⟩ := mapped
      cases equal
      exact congrArg Nat.succ (ih othersOk)

namespace Flip

variable {Q : Type}

/-- All qubits of a flip. -/
def qubits (flip : Flip Q) : List Q :=
  flip.controls ++ [flip.target]

/-- The flips of a slope are on its controls and its workspace. -/
theorem qubits_subset_of_mem_slope {control workspace : Nat → Q} {height : Nat} {register : List Q}
    (controls : ∀ index, control index ∈ register)
    (workspaces : ∀ index, workspace index ∈ register)
    {flip : Flip Q} (member : flip ∈ slope control workspace height) : flip.qubits ⊆ register := by
  have inside (first second third : Q) (firstInside : first ∈ register)
      (secondInside : second ∈ register) (thirdInside : third ∈ register) :
      (toffoli first second third).qubits ⊆ register := by
    intro qubit touched
    simp only [qubits, Flip.controls, target, List.cons_append, List.nil_append,
      List.mem_cons, List.not_mem_nil, or_false] at touched
    rcases touched with rfl | rfl | rfl <;> assumption
  induction height with
  | zero =>
      cases List.mem_singleton.mp member
      exact inside _ _ _ (controls 0) (controls 1) (workspaces 0)
  | succ height ih =>
      have onto : (rungOnto control workspace height).qubits ⊆ register :=
        inside _ _ _ (controls _) (workspaces _) (workspaces _)
      rw [slope, List.mem_cons, List.mem_append, List.mem_singleton] at member
      rcases member with rfl | lower | rfl
      · exact onto
      · exact ih lower
      · exact onto

theorem getD_mem {items register : List Q} {default : Q} (inside : items ⊆ register)
    (otherwise : default ∈ register) (index : Nat) : items.getD index default ∈ register := by
  by_cases small : index < items.length
  · rw [List.getD_eq_getElem _ _ small]
    exact inside (List.getElem_mem small)
  · rwa [List.getD_eq_default _ _ (Nat.le_of_not_lt small)]

/-- **Plans stay within their qubits.** There is a plan for any lists of qubits, and its flips
touch no qubits but the controls, the target and the borrowed ones. -/
theorem exists_plan_within (controls : List Q) (target : Q) (borrowed : List Q) :
    ∃ flips, plan controls target borrowed = .ok flips ∧
      ∀ flip ∈ flips, flip.qubits ⊆ controls ++ target :: borrowed := by
  fun_induction plan controls target borrowed with
  | case1 controls target borrowed method =>
      exact ⟨_, rfl, by simp [qubits, Flip.controls, Flip.target]⟩
  | case2 controls target borrowed method =>
      obtain ⟨control, rfl⟩ := List.length_eq_one_iff.mp (Method.choose_eq_cnot_iff.mp method)
      exact ⟨_, rfl, by simp [qubits, Flip.controls, Flip.target]⟩
  | case3 controls target borrowed method =>
      obtain ⟨first, second, rfl⟩ :=
        List.length_eq_two.mp (Method.choose_eq_toffoli_iff.mp method)
      exact ⟨_, rfl, by simp [qubits, Flip.controls, Flip.target]⟩
  | case4 controls target borrowed method =>
      exact ⟨_, rfl, by simp [qubits, Flip.controls, Flip.target]⟩
  | case5 controls target borrowed method =>
      have large := Method.choose_eq_ladder_iff.mp method
      have length : controls.length = controls.length - 3 + 3 := by omega
      have enough : controls.length - 3 < borrowed.length := by omega
      rw [ladderPass_eq_ok length enough]
      refine ⟨_, rfl, fun flip member => ?_⟩
      have inSlope : flip ∈ slope (controls.getD · target)
          (ladderWorkspace borrowed target (controls.length - 3)) (controls.length - 3 + 1) := by
        rw [slope]
        grind
      have onTarget : target ∈ controls ++ target :: borrowed := by simp
      refine qubits_subset_of_mem_slope (getD_mem (by simp) onTarget) (fun index => ?_) inSlope
      unfold ladderWorkspace
      split
      · exact getD_mem (fun qubit inside => by simp [inside]) onTarget index
      · exact onTarget
  | case6 controls target borrowed method fault parts =>
      rw [Machine.splitAt_eq_ok (Nat.le_of_lt (splitPoint_bounds method).2)] at parts
      cases parts
  | case7 controls target borrowed method front back parts recurseFront recurseBack =>
      obtain ⟨halves, -, pivot, others, rfl⟩ := exists_pivot_of_split method parts
      obtain ⟨ontoPivot, ontoOk, ontoWithin⟩ := recurseFront pivot others
      obtain ⟨fromPivot, fromOk, fromWithin⟩ := recurseBack pivot others
      refine ⟨(ontoPivot ++ fromPivot) ++ (ontoPivot ++ fromPivot), ?_, ?_⟩
      · rw [splitAt_one, nth_zero]
        simp only [bind, Except.bind, ontoOk, fromOk]
        rfl
      · have within : ∀ flip ∈ ontoPivot ++ fromPivot,
            flip.qubits ⊆ controls ++ target :: pivot :: others := by
          refine List.forall_mem_append.mpr ⟨fun flip member => ?_, fun flip member => ?_⟩
          · exact List.Subset.trans (ontoWithin flip member) (by grind)
          · exact List.Subset.trans (fromWithin flip member) (by grind)
        exact List.forall_mem_append.mpr ⟨within, within⟩

end Flip

section Steps

variable {M Q : Type} [RootedOperator M]

/-- The steps that a flip of a plan becomes. -/
def Flip.steps : Flip Q → Except Fault (List (RotationStep M Q))
  | .free target => .ok [.flip target]
  | .cnot control target => .ok [.cnot control target]
  | .toffoli first second target =>
      RotationStep.rotate RootedOperator.flip [first, second] target []
  | .many controls target => RotationStep.rotate RootedOperator.flip controls target []

namespace RotationStep

/-- All qubits of a step. -/
def qubits : RotationStep M Q → List Q
  | .apply _ target | .flip target => [target]
  | .applyIf _ control target | .cnot control target => [control, target]

@[simp] theorem rotate_nil {operator : M} {target : Q} {borrowed : List Q} :
    rotate operator [] target borrowed = .ok [.apply operator target] := by
  rw [rotate]

@[simp] theorem rotate_singleton {operator : M} {control target : Q} {borrowed : List Q} :
    rotate operator [control] target borrowed = .ok [.applyIf operator control target] := by
  rw [rotate]

/-- The construction splits off its last control. -/
theorem rotate_append_singleton {operator : M} {rest : List Q} (some : rest ≠ [])
    (last target : Q) (borrowed : List Q) :
    rotate operator (rest ++ [last]) target borrowed = (do
      let flips ← Flip.plan rest last (target :: borrowed)
      let flipped ← flips.mapM Flip.steps
      let remaining ← rotate (RootedOperator.root operator) rest target (last :: borrowed)
      return .applyIf (RootedOperator.root operator) last target :: (flipped.flatten ++
        .applyIf (RootedOperator.adjoint (RootedOperator.root operator)) last target ::
          (flipped.flatten ++ remaining))) := by
  obtain ⟨first, others, rfl⟩ := List.exists_cons_of_ne_nil some
  obtain ⟨second, more, listed⟩ : ∃ second more, others ++ [last] = second :: more :=
    List.exists_cons_of_ne_nil (List.concat_ne_nil last others)
  have front : (second :: more).dropLast = others := by
    rw [← listed, List.dropLast_concat]
  have back : (second :: more).getLast (List.cons_ne_nil second more) = last := by
    simp only [← listed, List.getLast_append_singleton]
  rw [List.cons_append, listed, rotate]
  split
  case h_1 fault failed =>
    rw [front, back] at failed
    rw [failed]
    rfl
  case h_2 flips planned =>
    have expanded {step : {flip : Flip Q // flip ∈ flips} →
        Except Fault (List (RotationStep M Q))}
        (same : ∀ flip member, step ⟨flip, member⟩ = flip.steps) :
        flips.attach.mapM step = flips.mapM Flip.steps := by
      rw [List.mapM_subtype same, List.unattach_attach]
    simp only [front, back] at planned ⊢
    rw [planned, expanded]
    · rfl
    · rintro (_ | _ | _ | _) member <;> rfl

/-- A rotation under several controls consists of flips onto the last one and of rotations by
roots under fewer. -/
theorem rotate_append_singleton_eq_ok_iff {operator : M} {rest : List Q} (some : rest ≠ [])
    {last target : Q} {borrowed : List Q} {steps : List (RotationStep M Q)} :
    rotate operator (rest ++ [last]) target borrowed = .ok steps ↔
      ∃ flips, Flip.plan rest last (target :: borrowed) = .ok flips ∧
      ∃ flipped, flips.mapM Flip.steps = .ok flipped ∧
      ∃ remaining,
        rotate (RootedOperator.root operator) rest target (last :: borrowed) = .ok remaining ∧
        .applyIf (RootedOperator.root operator) last target :: (flipped.flatten ++
          .applyIf (RootedOperator.adjoint (RootedOperator.root operator)) last target ::
            (flipped.flatten ++ remaining)) = steps := by
  rw [rotate_append_singleton some]
  simp only [bind_eq_ok_iff, pure, Except.pure, Except.ok.injEq]

/-- Under two controls the flips in between are flips under one. -/
theorem rotate_pair {operator : M} {first second target : Q} {borrowed : List Q} :
    rotate operator [first, second] target borrowed =
      .ok [.applyIf (RootedOperator.root operator) second target, .cnot first second,
        .applyIf (RootedOperator.adjoint (RootedOperator.root operator)) second target,
        .cnot first second, .applyIf (RootedOperator.root operator) first target] := by
  have planned : Flip.plan [first] second (target :: borrowed) = .ok [.cnot first second] := by
    rw [Flip.plan]
    rfl
  refine (rotate_append_singleton (List.cons_ne_nil first []) second target borrowed).trans ?_
  rw [planned, rotate_singleton]
  rfl

/-- Up to two controls need no workspace. -/
theorem exists_rotate_small (operator : M) {controls : List Q} (few : controls.length ≤ 2)
    (target : Q) : ∃ steps, rotate operator controls target [] = .ok steps ∧
      ∀ step ∈ steps, step.qubits ⊆ controls ++ [target] := by
  match controls with
  | [] => exact ⟨_, rotate_nil, by simp [qubits]⟩
  | [control] => exact ⟨_, rotate_singleton, by simp [qubits]⟩
  | [first, second] => exact ⟨_, rotate_pair, by simp [qubits]⟩
  | first :: second :: third :: others =>
      exact absurd few (by simp)

end RotationStep

/-- A flip with up to two controls has steps on its own qubits. -/
theorem Flip.exists_steps {flip : Flip Q} (few : flip.controls.length ≤ 2) :
    ∃ steps : List (RotationStep M Q), flip.steps = .ok steps ∧
      ∀ step ∈ steps, step.qubits ⊆ flip.qubits := by
  cases flip with
  | free target => exact ⟨_, rfl, by simp [RotationStep.qubits, qubits, Flip.target]⟩
  | cnot control target =>
      exact ⟨_, rfl, by simp [RotationStep.qubits, qubits, Flip.controls, Flip.target]⟩
  | toffoli first second target => exact RotationStep.exists_rotate_small _ few target
  | many controls target => exact RotationStep.exists_rotate_small _ few target

/-- **Constructions stay within their qubits.** The square-root construction succeeds for any
lists of qubits, and its steps touch no qubits but the controls, the target and the borrowed
ones. -/
theorem RotationStep.exists_rotate_within (operator : M) (controls : List Q) (target : Q)
    (borrowed : List Q) :
    ∃ steps, rotate operator controls target borrowed = .ok steps ∧
      ∀ step ∈ steps, step.qubits ⊆ controls ++ target :: borrowed := by
  induction controls using List.reverseRecOn generalizing operator borrowed with
  | nil => exact ⟨_, rotate_nil, by simp [qubits]⟩
  | append_singleton rest last ih =>
      by_cases some : rest = []
      · subst some
        exact ⟨_, rotate_singleton, by simp [qubits]⟩
      · obtain ⟨flips, planned, flipsWithin⟩ :=
          Flip.exists_plan_within rest last (target :: borrowed)
        obtain ⟨lists, listsOk, listsWithin⟩ : ∃ lists : List (List (RotationStep M Q)),
            flips.mapM Flip.steps = .ok lists ∧ ∀ steps ∈ lists, ∀ step ∈ steps,
              step.qubits ⊆ rest ++ last :: target :: borrowed := by
          refine exists_mapM fun flip member => ?_
          obtain ⟨steps, stepsOk, stepsWithin⟩ := Flip.exists_steps (M := M)
            (Flip.controls_length_le_two_of_plan (List.cons_ne_nil _ _) planned member)
          exact ⟨steps, stepsOk, fun step inside =>
            List.Subset.trans (stepsWithin step inside) (flipsWithin flip member)⟩
        obtain ⟨remaining, remainingOk, remainingWithin⟩ :=
          ih (RootedOperator.root operator) (last :: borrowed)
        have flipped : ∀ step ∈ lists.flatten,
            step.qubits ⊆ rest ++ last :: target :: borrowed := by
          intro step member
          obtain ⟨steps, listed, inside⟩ := List.mem_flatten.mp member
          exact listsWithin steps listed step inside
        have remainingInside : ∀ step ∈ remaining,
            step.qubits ⊆ rest ++ last :: target :: borrowed := by
          intro step inside
          exact List.Subset.trans (remainingWithin step inside) (by grind)
        have applied (operator : M) :
            (applyIf operator last target).qubits ⊆ rest ++ last :: target :: borrowed := by
          simp [qubits]
        refine ⟨_, (rotate_append_singleton_eq_ok_iff some).mpr
          ⟨flips, planned, lists, listsOk, remaining, remainingOk, rfl⟩, ?_⟩
        rw [List.append_assoc, List.singleton_append]
        simp only [List.forall_mem_cons, List.forall_mem_append]
        exact ⟨applied _, flipped, applied _, flipped, remainingInside⟩

end Steps

/-! ## Pulses -/

section Pulses

variable {R Q : Type}

/-- All qubits of a pulse. -/
def Pulse.qubits : Pulse R Q → List Q
  | .matrix _ target | .flip target | .turn _ _ target => [target]
  | .cnot control target => [control, target]

/-- The gate of a pulse. -/
def Pulse.gate : Pulse R Q → Gate R
  | .matrix entries _ => .matrix entries [2]
  | .flip _ => .x
  | .cnot _ _ => .cx
  | .turn family angle _ => .angle family (.value angle)

/-- A pulse on qubits of a register: a global phase, which acts on none, is no pulse. -/
structure Pulse.Within (register : List Q) (pulse : Pulse R Q) : Prop where
  qubits : pulse.qubits ⊆ register
  turn : ∀ family angle target, pulse = .turn family angle target → family.shape = [2]

/-- A turn of a qubit of the register is within the register. -/
theorem Pulse.within_turn {family : AngleFamily} {angle : R} {target : Q} {register : List Q}
    (shape : family.shape = [2]) (inside : target ∈ register) :
    (Pulse.turn family angle target).Within register := by
  refine ⟨List.cons_subset.mpr ⟨inside, List.nil_subset _⟩, ?_⟩
  rintro _ _ _ ⟨⟩
  exact shape

variable [Scalar R]

/-- What is not left out is the turn. -/
theorem Pulse.eq_of_mem_turnUnlessSmall {tolerance angle : R} {family : AngleFamily} {target : Q}
    {pulse : Pulse R Q} (member : pulse ∈ turnUnlessSmall tolerance family angle target) :
    pulse = .turn family angle target := by
  unfold turnUnlessSmall at member
  split at member
  case isTrue => exact List.mem_singleton.mp member
  case isFalse => cases member

/-- Turns under one control are exchanges, turns of the target about two axes and phases of the
control. -/
theorem Pulse.cases_of_mem_controlledTurns {tolerance : R} {angles : EulerAngles R}
    {control target : Q} {pulse : Pulse R Q}
    (member : pulse ∈ controlledTurns tolerance angles control target) :
    pulse = .cnot control target ∨ (∃ angle, pulse = .turn .rz angle target) ∨
      (∃ angle, pulse = .turn .ry angle target) ∨
      ∃ angle, pulse = .turn .phaseShift angle control := by
  simp only [controlledTurns, List.cons_append, List.append_assoc, List.mem_append,
    List.mem_cons] at member
  rcases member with rz | exchange | rz | ry | exchange | ry | rz | phase
  · exact .inr (.inl ⟨_, eq_of_mem_turnUnlessSmall rz⟩)
  · exact .inl exchange
  · exact .inr (.inl ⟨_, eq_of_mem_turnUnlessSmall rz⟩)
  · exact .inr (.inr (.inl ⟨_, eq_of_mem_turnUnlessSmall ry⟩))
  · exact .inl exchange
  · exact .inr (.inr (.inl ⟨_, eq_of_mem_turnUnlessSmall ry⟩))
  · exact .inr (.inl ⟨_, eq_of_mem_turnUnlessSmall rz⟩)
  · exact .inr (.inr (.inr ⟨_, eq_of_mem_turnUnlessSmall phase⟩))

/-- The pulses of a step are on its qubits. -/
theorem RotationStep.within_of_mem_pulses {tolerance : R} {step : RotationStep (Unitary R) Q}
    {pulse : Pulse R Q} (member : pulse ∈ step.pulses tolerance) : pulse.Within step.qubits := by
  cases step with
  | apply operator target =>
      cases List.mem_singleton.mp member
      exact ⟨List.Subset.refl _, by rintro _ _ _ ⟨⟩⟩
  | applyIf operator control target =>
      have exchange : (Pulse.cnot control target : Pulse R Q).Within [control, target] :=
        ⟨List.Subset.refl _, by rintro _ _ _ ⟨⟩⟩
      have onControl : control ∈ [control, target] := List.mem_cons_self
      have onTarget : target ∈ [control, target] := List.mem_cons_of_mem _ List.mem_cons_self
      dsimp only [pulses] at member
      split at member
      case isTrue =>
        cases List.mem_singleton.mp member
        exact exchange
      case isFalse =>
        rcases Pulse.cases_of_mem_controlledTurns member with
          rfl | ⟨_, rfl⟩ | ⟨_, rfl⟩ | ⟨_, rfl⟩
        · exact exchange
        · exact Pulse.within_turn rfl onTarget
        · exact Pulse.within_turn rfl onTarget
        · exact Pulse.within_turn rfl onControl
  | flip target =>
      cases List.mem_singleton.mp member
      exact ⟨List.Subset.refl _, by rintro _ _ _ ⟨⟩⟩
  | cnot control target =>
      cases List.mem_singleton.mp member
      exact ⟨List.Subset.refl _, by rintro _ _ _ ⟨⟩⟩

/-- Whether a matrix is one of a qubit can always be told. -/
theorem Gate.exists_ofMatrix_qubit (entries : Unitary R) :
    ∃ gate?, Gate.ofMatrix? entries [2] = .ok gate? := by
  have size : Machine.product [2] = .ok 2 := rfl
  simp only [Gate.ofMatrix?, size, bind, Except.bind]
  split <;> exact ⟨_, rfl⟩

/-- The gate of a pulse on its qubits. -/
def Pulse.operation (pulse : Pulse R Qudit) : Operation R :=
  ⟨pulse.gate, pulse.qubits⟩

/-- A pulse other than a matrix becomes its operation, if its gate matches its qubits. -/
theorem Pulse.operation?_eq_some {pulse : Pulse R Qudit}
    (gated : ∀ entries target, pulse ≠ .matrix entries target)
    (fits : pulse.gate.shape = Qudit.dimensions pulse.qubits) :
    pulse.operation? = .ok (some pulse.operation) := by
  cases pulse with
  | matrix entries target => exact absurd rfl (gated entries target)
  | flip target =>
      have applied : Gate.x.on [target] = .ok _ := Gate.on_eq_ok rfl fits
      rw [operation?, applied]
      rfl
  | cnot control target =>
      have applied : Gate.cx.on [control, target] = .ok _ := Gate.on_eq_ok rfl fits
      rw [operation?, applied]
      rfl
  | turn family angle target =>
      have applied : (Gate.angle family (.value angle)).on [target] = .ok _ :=
        Gate.on_eq_ok rfl fits
      rw [operation?, applied]
      rfl

/-- Pulses on qubits have gates, or none if their matrix is not unitary. -/
theorem Pulse.exists_operation? {register : List Qudit} {pulse : Pulse R Qudit}
    (levels : ∀ qubit ∈ register, qubit.dimension = 2) (within : pulse.Within register) :
    ∃ operation?, pulse.operation? = .ok operation? := by
  have fits (shape : pulse.gate.shape = pulse.qubits.map fun _ => 2) :
      pulse.gate.shape = Qudit.dimensions pulse.qubits := by
    refine shape.trans (List.map_congr_left fun qubit touched => ?_)
    exact (levels qubit (within.qubits touched)).symm
  cases pulse with
  | matrix entries target =>
      obtain ⟨gate?, accepted⟩ := Gate.exists_ofMatrix_qubit entries
      have lifted := liftFault_eq_ok_iff (R := R).mpr accepted
      cases gate? with
      | none =>
          rw [operation?, lifted]
          exact ⟨none, rfl⟩
      | some gate =>
          have same := Gate.eq_of_ofMatrix accepted
          subst same
          have applied : (Gate.matrix entries [2]).on [target] = .ok ⟨_, [target]⟩ :=
            Gate.on_eq_ok rfl (fits rfl)
          rw [operation?, lifted]
          change ∃ operation?, ((Gate.matrix entries [2]).on [target] >>= _) = _
          rw [applied]
          exact ⟨_, rfl⟩
  | flip target => exact ⟨_, operation?_eq_some (by rintro _ _ ⟨⟩) (fits rfl)⟩
  | cnot control target => exact ⟨_, operation?_eq_some (by rintro _ _ ⟨⟩) (fits rfl)⟩
  | turn family angle target =>
      exact ⟨_, operation?_eq_some (by rintro _ _ ⟨⟩) (fits (within.turn _ _ _ rfl))⟩

/-- The pulses of steps on qubits have gates, or none. -/
theorem Pulse.exists_operations {register : List Qudit}
    {steps : List (RotationStep (Unitary R) Qudit)} (tolerance : R)
    (levels : ∀ qubit ∈ register, qubit.dimension = 2)
    (within : ∀ step ∈ steps, step.qubits ⊆ register) :
    ∃ found, (steps.flatMap (RotationStep.pulses tolerance)).mapM Pulse.operation? = .ok found := by
  obtain ⟨found, foundOk, -⟩ : ∃ found, (steps.flatMap (RotationStep.pulses tolerance)).mapM
      Pulse.operation? = .ok found ∧ ∀ result ∈ found, True := by
    refine exists_mapM fun pulse member => ?_
    obtain ⟨step, stepMember, inside⟩ := List.mem_flatMap.mp member
    have onStep := RotationStep.within_of_mem_pulses inside
    obtain ⟨operation?, applied⟩ := Pulse.exists_operation? levels
      ⟨List.Subset.trans onStep.qubits (within step stepMember), onStep.turn⟩
    exact ⟨operation?, applied, trivial⟩
  exact ⟨found, foundOk⟩

/-- The operation of a pulse applies its gate to its qubits; a matrix has passed the check. -/
theorem Pulse.on_of_operation? {pulse : Pulse R Qudit} {operation : Operation R}
    (found : pulse.operation? = .ok (some operation)) :
    pulse.gate.on pulse.qubits = .ok operation ∧ pulse.gate.WellFormed := by
  cases pulse with
  | matrix entries target =>
      obtain ⟨gate?, accepted, found⟩ := bind_eq_ok_iff.mp found
      cases gate? with
      | none => cases found
      | some gate =>
          obtain ⟨_, applied, equal⟩ := bind_eq_ok_iff.mp found
          cases equal
          have passed := liftFault_eq_ok_iff.mp accepted
          obtain rfl := Gate.eq_of_ofMatrix passed
          exact ⟨applied, Gate.wellFormed_of_ofMatrix passed⟩
  | flip target | cnot control target | turn family angle target =>
      obtain ⟨_, applied, equal⟩ := bind_eq_ok_iff.mp found
      cases equal
      exact ⟨applied, trivial⟩

end Pulses

/-! ## Synthesis -/

variable {R : Type} [Scalar R]

/-- Synthesis is the construction, its pulses and their gates in turn. -/
theorem synthesize_eq_ok_iff {matrix : Unitary R} {controls : List Qudit} {target : Qudit}
    {tolerance : R} {operations : List (Operation R)} :
    synthesize matrix controls target tolerance = .ok operations ↔
      (controls ≠ [] → 2 ≤ matrix.rows ∧ 2 ≤ matrix.cols) ∧
      ∃ steps, RotationStep.rotate matrix controls target [] = .ok steps ∧
      ∃ found, (steps.flatMap (RotationStep.pulses tolerance)).mapM Pulse.operation? = .ok found ∧
        found.filterMap id = operations := by
  have corner : matrix.requireCorner = .ok () ↔ 2 ≤ matrix.rows ∧ 2 ≤ matrix.cols := by
    unfold DenseMatrix.requireCorner
    split <;> simp [*]
  simp only [synthesize]
  split
  case isTrue given =>
    have some : controls ≠ [] := by simpa using given
    simp only [bind_eq_ok_iff, liftFault_eq_ok_iff, pure, Except.pure, Except.ok.injEq]
    constructor
    · rintro ⟨⟨⟩, cornerOk, built⟩
      exact ⟨fun _ => corner.mp cornerOk, built⟩
    · rintro ⟨large, built⟩
      exact ⟨(), corner.mpr (large some), built⟩
  case isFalse given =>
    have none : controls = [] := by simpa using given
    simp only [bind_eq_ok_iff, liftFault_eq_ok_iff, pure, Except.pure, Except.ok.injEq]
    exact (and_iff_right fun some => absurd none some).symm

/-- **Synthesis succeeds on qubits**, whether or not they are different from each other. -/
theorem exists_synthesize {matrix : Unitary R} {controls : List Qudit} {target : Qudit}
    (tolerance : R) (corner : 2 ≤ matrix.rows ∧ 2 ≤ matrix.cols)
    (levels : ∀ qubit ∈ controls ++ [target], qubit.dimension = 2) :
    ∃ operations, synthesize matrix controls target tolerance = .ok operations := by
  obtain ⟨steps, stepsOk, stepsWithin⟩ :=
    RotationStep.exists_rotate_within matrix controls target []
  obtain ⟨found, foundOk⟩ := Pulse.exists_operations tolerance levels stepsWithin
  exact ⟨_, synthesize_eq_ok_iff.mpr ⟨fun _ => corner, steps, stepsOk, found, foundOk, rfl⟩⟩

end QuditCircuits
