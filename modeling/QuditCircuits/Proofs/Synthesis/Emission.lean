import QuditCircuits.Proofs.Decomposition.Parts
import QuditCircuits.Proofs.Synthesis.Calls

/-!
# What a synthesis emits

The lists that a call passes on are put together from its controls, its target and what it may
borrow. If these are different qubits, then so are those of every call and of every step that it
comes to, and a call with controls comes to calls and steps with controls
(`Call.placed_of_body`, `Call.controlled_of_body`). Both reach the steps by `Call.forall_steps`.
The operations of a step are on its qubits, and apply exchanges and turns if it has a control.
-/

namespace QuditCircuits

/-! ## What steps inherit -/

section Steps

variable {M Q : Type}

/-- All qubits of a call. -/
def Call.qubits : Call M Q → List Q
  | .rotate _ controls target borrowed | .flip controls target borrowed =>
      controls ++ target :: borrowed
  | .toffoli first second target => [first, second, target]

/-- The number of controls of a step. -/
def RotationStep.controlCount : RotationStep M Q → Nat
  | .apply _ _ | .flip _ => 0
  | .applyIf _ _ _ | .cnot _ _ => 1

namespace Call.Entry

/-- All qubits of an entry. -/
def qubits : Entry M Q → List Q :=
  Sum.elim RotationStep.qubits Call.qubits

/-- The number of controls of an entry. -/
def controlCount : Entry M Q → Nat :=
  Sum.elim RotationStep.controlCount Call.controlCount

/-- An entry on different qubits of a register. -/
structure Placed (register : List Q) (entry : Entry M Q) : Prop where
  inside : entry.qubits ⊆ register
  distinct : entry.qubits.Nodup

theorem Placed.mono {register larger : List Q} {entry : Entry M Q} (placed : entry.Placed register)
    (le : register ⊆ larger) : entry.Placed larger :=
  ⟨List.Subset.trans placed.inside le, placed.distinct⟩

/-- What is on some qubits of a register, in order, is placed in it. -/
theorem placed_of_sublist {register : List Q} {entry : Entry M Q} (distinct : register.Nodup)
    (among : entry.qubits.Sublist register) : entry.Placed register :=
  ⟨among.subset, distinct.sublist among⟩

/-- What is on the qubits of a register, in any order, is placed in it. -/
theorem placed_of_perm {register : List Q} {entry : Entry M Q} (distinct : register.Nodup)
    (same : entry.qubits.Perm register) : entry.Placed register :=
  ⟨same.subset, same.nodup_iff.mpr distinct⟩

end Call.Entry

variable [RootedOperator M]

theorem Flip.qubits_entry (flip : Flip Q) : (flip.entry : Call.Entry M Q).qubits = flip.qubits := by
  cases flip <;> rfl

theorem Flip.controlCount_entry (flip : Flip Q) :
    (flip.entry : Call.Entry M Q).controlCount = flip.controls.length := by
  cases flip <;> rfl

/-- A flip under controls is not planned by flips without. -/
theorem Flip.controls_ne_nil_of_plan {controls borrowed : List Q} {target : Q}
    {flips : List (Flip Q)} (planned : plan controls target borrowed = .ok flips)
    (whole : Method.choose controls.length borrowed.length ≠ .split) (some : controls ≠ [])
    {flip : Flip Q} (member : flip ∈ flips) : flip.controls ≠ [] := by
  revert planned
  fun_cases plan controls target borrowed with
  | case1 method =>
      exact absurd (List.length_eq_zero_iff.mp (Method.choose_eq_free_iff.mp method)) some
  | case2 method =>
      intro planned
      obtain ⟨_, _, equal⟩ := bind_eq_ok_iff.mp planned
      cases equal
      cases List.mem_singleton.mp member
      exact List.cons_ne_nil _ _
  | case3 method =>
      intro planned
      simp only [bind_eq_ok_iff] at planned
      obtain ⟨_, _, _, _, equal⟩ := planned
      cases equal
      cases List.mem_singleton.mp member
      exact List.cons_ne_nil _ _
  | case4 method =>
      intro planned
      cases planned
      cases List.mem_singleton.mp member
      exact some
  | case5 method =>
      intro planned
      obtain ⟨pass, passOk, equal⟩ := bind_eq_ok_iff.mp planned
      cases equal
      have inPass : flip ∈ pass := (List.mem_append.mp member).elim id id
      have two := controls_length_of_ladderPass passOk inPass
      exact List.ne_nil_of_length_pos (by omega)
  | case6 method => exact absurd method whole
  | case7 method => exact absurd method whole

namespace Call

/-- **Inheritance.** What every entry of a body inherits from the call, the steps of the call
have. -/
theorem forall_steps (inherits : Entry M Q → Prop)
    (inherited : ∀ call entries, inherits (.inr call) → call.body = .ok entries →
      ∀ entry ∈ entries, inherits entry)
    {call : Call M Q} (here : inherits (.inr call)) {steps : List (RotationStep M Q)}
    (built : call.steps = .ok steps) : ∀ step ∈ steps, inherits (.inl step) := by
  induction call using (wellFounded_makes (M := M) (Q := Q)).induction generalizing steps with
  | _ call ih =>
      obtain ⟨entries, bodied⟩ := exists_body call
      rw [steps_eq_expand, expand, bodied] at built
      obtain ⟨_, ⟨⟩, built⟩ := bind_eq_ok_iff.mp built
      obtain ⟨lists, listed, equal⟩ := bind_eq_ok_iff.mp built
      cases equal
      intro step member
      obtain ⟨answers, answered, inside⟩ := List.mem_flatten.mp member
      obtain ⟨entry, entryMember, entryOk⟩ := exists_of_mem_mapM listed answered
      have entryHas := inherited call entries here bodied entry entryMember
      cases entry with
      | inl own =>
          cases entryOk
          cases List.mem_singleton.mp inside
          exact entryHas
      | inr callee => exact ih callee ⟨entries, bodied, entryMember⟩ entryHas entryOk step inside

variable {call : Call M Q} {entries : List (Entry M Q)}

/-- The last control and the target, whatever else there is. -/
theorem pair_sublist {rest : List Q} {last target : Q} {borrowed : List Q} :
    [last, target].Sublist (rest ++ [last] ++ target :: borrowed) :=
  (List.sublist_append_right rest [last]).append ((List.nil_sublist _).cons_cons target)

/-- The flips borrow the target, and the operator under the other controls the last control. -/
theorem placed_of_mem_descent {operator : M} {rest : List Q} {last target : Q} {borrowed : List Q}
    (distinct : (rest ++ [last] ++ target :: borrowed).Nodup) :
    ∀ entry ∈ descent operator rest last target borrowed,
      entry.Placed (rest ++ [last] ++ target :: borrowed) := by
  have flipped : (rest ++ last :: target :: borrowed).Perm
      (rest ++ [last] ++ target :: borrowed) := by
    rw [List.append_assoc, List.singleton_append]
  have freed : (rest ++ target :: last :: borrowed).Perm
      (rest ++ [last] ++ target :: borrowed) := by
    rw [List.append_assoc, List.singleton_append]
    exact (List.Perm.swap last target borrowed).append_left rest
  simp only [descent, List.forall_mem_cons]
  refine ⟨?_, ?_, ?_, ?_, ?_, List.forall_mem_nil _⟩
  · exact Entry.placed_of_sublist distinct pair_sublist
  · exact Entry.placed_of_perm distinct flipped
  · exact Entry.placed_of_sublist distinct pair_sublist
  · exact Entry.placed_of_perm distinct flipped
  · exact Entry.placed_of_perm distinct freed

omit [RootedOperator M] in
/-- Each half borrows the other, the back half without the qubit between them. -/
theorem placed_of_mem_halves [DecidableEq Q] {front back others : List Q} {pivot target : Q}
    (distinct : (front ++ back ++ target :: pivot :: others).Nodup) :
    ∀ entry ∈ (halves front back pivot target others : List (Entry M Q)),
      entry.Placed (front ++ back ++ target :: pivot :: others) := by
  have ontoPivot : (front ++ pivot :: (back ++ target :: others)).Perm
      (front ++ back ++ target :: pivot :: others) := by
    grind
  have fromPivot : (back ++ [pivot] ++ target :: (front ++ others)).Perm
      (front ++ back ++ target :: pivot :: others) := by
    grind
  simp only [halves, List.forall_mem_cons]
  refine ⟨?_, ?_, List.forall_mem_nil _⟩
  · exact Entry.placed_of_perm distinct ontoPivot
  · exact Entry.placed_of_perm distinct fromPivot

/-- A call under different qubits lists steps and calls on different qubits among them. -/
theorem placed_of_body [DecidableEq Q] (distinct : call.qubits.Nodup)
    (built : call.body = .ok entries) : ∀ entry ∈ entries, entry.Placed call.qubits := by
  match call with
  | .rotate operator controls target borrowed =>
      rcases List.eq_nil_or_concat controls with rfl | ⟨rest, last, rfl⟩
      · cases built
        refine List.forall_mem_singleton.mpr ?_
        apply Entry.placed_of_sublist distinct
        exact (List.nil_sublist _).cons_cons target
      · rw [List.concat_eq_append] at built distinct ⊢
        by_cases some : rest = []
        · subst some
          cases built
          refine List.forall_mem_singleton.mpr ?_
          apply Entry.placed_of_sublist distinct
          exact pair_sublist
        · rw [body_rotate_append_singleton some] at built
          cases built
          exact placed_of_mem_descent distinct
  | .toffoli first second target =>
      cases built
      exact List.forall_mem_singleton.mpr ⟨List.Subset.refl _, distinct⟩
  | .flip controls target borrowed =>
      by_cases split : Flip.Method.choose controls.length borrowed.length = .split
      · obtain ⟨front, back, pivot, others, rfl, rfl, -, same⟩ :=
          exists_body_of_split (M := M) target split
        cases same.symm.trans built
        have half := placed_of_mem_halves (M := M) distinct
        exact List.forall_mem_append.mpr ⟨half, half⟩
      · obtain ⟨flips, planned, within⟩ := Flip.exists_plan_within controls target borrowed
        rw [body_flip_of_ne_split split, planned] at built
        cases built
        refine List.forall_mem_map.mpr fun flip member => ⟨?_, ?_⟩
        · rw [Flip.qubits_entry]
          exact within flip member
        · rw [Flip.qubits_entry]
          exact Flip.nodup_of_plan distinct planned member

/-- A call under controls lists steps and calls under controls. -/
theorem controlled_of_body (controlled : call.controlCount ≠ 0) (built : call.body = .ok entries) :
    ∀ entry ∈ entries, entry.controlCount ≠ 0 := by
  match call with
  | .rotate operator controls target borrowed =>
      rcases List.eq_nil_or_concat controls with rfl | ⟨rest, last, rfl⟩
      · exact absurd rfl controlled
      · rw [List.concat_eq_append] at built
        by_cases some : rest = []
        · subst some
          cases built
          exact List.forall_mem_singleton.mpr Nat.one_ne_zero
        · rw [body_rotate_append_singleton some] at built
          cases built
          have remaining : rest.length ≠ 0 := mt List.length_eq_zero_iff.mp some
          simp only [descent, List.forall_mem_cons]
          refine ⟨?_, ?_, ?_, ?_, ?_, List.forall_mem_nil _⟩
          · exact Nat.one_ne_zero
          · exact remaining
          · exact Nat.one_ne_zero
          · exact remaining
          · exact remaining
  | .toffoli first second target =>
      cases built
      exact List.forall_mem_singleton.mpr (Nat.succ_ne_zero 1)
  | .flip controls target borrowed =>
      by_cases split : Flip.Method.choose controls.length borrowed.length = .split
      · obtain ⟨front, back, pivot, others, rfl, rfl, half, same⟩ :=
          exists_body_of_split (M := M) target split
        cases same.symm.trans built
        have bounds := Flip.splitPoint_bounds split
        have half : ∀ entry ∈ halves (M := M) front back pivot target others,
            entry.controlCount ≠ 0 := by
          simp only [halves, List.forall_mem_cons]
          refine ⟨?_, ?_, List.forall_mem_nil _⟩
          · change front.length ≠ 0
            omega
          · change (back ++ [pivot]).length ≠ 0
            simp
        exact List.forall_mem_append.mpr ⟨half, half⟩
      · obtain ⟨flips, planned, -⟩ := Flip.exists_plan_within controls target borrowed
        rw [body_flip_of_ne_split split, planned] at built
        cases built
        refine List.forall_mem_map.mpr fun flip member => ?_
        rw [Flip.controlCount_entry]
        exact mt List.length_eq_zero_iff.mp
          (Flip.controls_ne_nil_of_plan planned split (mt List.length_eq_zero_iff.mpr controlled)
            member)

end Call

end Steps

/-! ## Pulses -/

section Pulses

variable {R Q : Type}

/-- The gates that operators under controls are built from. -/
inductive Gate.InBasis : Gate R → Prop where
  | rz (angle : R) : InBasis (.angle .rz (.value angle))
  | ry (angle : R) : InBasis (.angle .ry (.value angle))
  | phaseShift (angle : R) : InBasis (.angle .phaseShift (.value angle))
  | cx : InBasis .cx

variable [Scalar R]

/-- A controlled matrix becomes exchanges of its qubits, and turns. -/
theorem RotationStep.cases_of_mem_pulses {tolerance : R} {matrix : Unitary R} {control target : Q}
    {pulse : Pulse R Q} (member : pulse ∈ (applyIf matrix control target).pulses tolerance) :
    pulse = .cnot control target ∨
      ∃ family angle qubit, pulse = .turn family angle qubit ∧
        Gate.InBasis (.angle family (.value angle)) := by
  dsimp only [pulses] at member
  split at member
  case isTrue => exact .inl (List.mem_singleton.mp member)
  case isFalse =>
    rcases Pulse.cases_of_mem_controlledTurns member with
      same | ⟨_, rfl⟩ | ⟨_, rfl⟩ | ⟨_, rfl⟩
    · exact .inl same
    · exact .inr ⟨_, _, _, rfl, .rz _⟩
    · exact .inr ⟨_, _, _, rfl, .ry _⟩
    · exact .inr ⟨_, _, _, rfl, .phaseShift _⟩

variable {tolerance : R} {step : RotationStep (Unitary R) Q} {pulse : Pulse R Q}

/-- The pulses of a step on distinct qubits are on distinct qubits. -/
theorem RotationStep.nodup_of_mem_pulses (distinct : step.qubits.Nodup)
    (member : pulse ∈ step.pulses tolerance) : pulse.qubits.Nodup := by
  cases step with
  | apply matrix target =>
      cases List.mem_singleton.mp member
      exact distinct
  | applyIf matrix control target =>
      rcases cases_of_mem_pulses member with rfl | ⟨family, angle, qubit, rfl, -⟩
      · exact distinct
      · exact List.nodup_singleton qubit
  | flip target =>
      cases List.mem_singleton.mp member
      exact distinct
  | cnot control target =>
      cases List.mem_singleton.mp member
      exact distinct

/-- The pulses of a controlled step are in the basis. -/
theorem RotationStep.inBasis_of_mem_pulses (controlled : step.controlCount ≠ 0)
    (member : pulse ∈ step.pulses tolerance) : pulse.gate.InBasis := by
  cases step with
  | apply matrix target => exact absurd rfl controlled
  | applyIf matrix control target =>
      rcases cases_of_mem_pulses member with rfl | ⟨family, angle, qubit, rfl, basis⟩
      · exact .cx
      · exact basis
  | flip target => exact absurd rfl controlled
  | cnot control target =>
      cases List.mem_singleton.mp member
      exact .cx

/-- The operation of a pulse is its gate on its qubits. -/
theorem Pulse.operation_of_pulse {pulse : Pulse R Qudit} {operation : Operation R}
    (found : pulse.operation? = .ok (some operation)) :
    operation = ⟨pulse.gate, pulse.qubits⟩ ∧ operation.Within pulse.qubits ∧
      operation.gate.WellFormed := by
  obtain ⟨applied, wellFormed⟩ := Pulse.on_of_operation? found
  have within := Operation.within_of_on applied
  obtain ⟨-, rfl⟩ := Operation.make_eq_ok_iff.mp (Operation.make_of_on applied)
  exact ⟨rfl, within, wellFormed⟩

end Pulses

/-! ## Operations -/

/-- An operation of a well-formed gate on different qudits of a register. -/
structure Operation.Placed {R : Type} [Scalar R] (register : List Qudit)
    (operation : Operation R) : Prop extends Within register operation where
  wellFormed : operation.gate.WellFormed
  distinct : operation.qudits.Nodup

variable {R : Type} [Scalar R]

/-- The operations of a call are those of the pulses of its steps. -/
theorem Call.exists_step_of_mem_operations {tolerance : R} {call : Call (Unitary R) Qudit}
    {operations : List (Operation R)} (emitted : call.operations tolerance = .ok operations)
    {operation : Operation R} (member : operation ∈ operations) :
    ∃ steps step pulse, call.steps = .ok steps ∧ step ∈ steps ∧ pulse ∈ step.pulses tolerance ∧
      pulse.operation? = .ok (some operation) := by
  obtain ⟨steps, built, emitted⟩ := bind_eq_ok_iff.mp emitted
  obtain ⟨found, mapped, equal⟩ := bind_eq_ok_iff.mp emitted
  cases equal
  obtain ⟨_, inside, rfl⟩ := List.mem_filterMap.mp member
  obtain ⟨pulse, pulseMember, applied⟩ := exists_of_mem_mapM mapped inside
  obtain ⟨step, stepMember, ofStep⟩ := List.mem_flatMap.mp pulseMember
  exact ⟨steps, step, pulse, liftFault_eq_ok_iff.mp built, stepMember, ofStep, applied⟩

/-- **Emission.** A call under different qubits succeeds. Its operations are on different qubits
of the call, and if it has controls, then they apply exchanges and turns only. -/
theorem Call.exists_operations (call : Call (Unitary R) Qudit) (tolerance : R)
    (levels : ∀ qubit ∈ call.qubits, qubit.dimension = 2) (distinct : call.qubits.Nodup) :
    ∃ operations, call.operations tolerance = .ok operations ∧
      (∀ operation ∈ operations, operation.Placed call.qubits) ∧
      (call.controlCount ≠ 0 → ∀ operation ∈ operations, operation.gate.InBasis) := by
  obtain ⟨steps, built⟩ := exists_steps call
  have placed : ∀ step ∈ steps, Entry.Placed call.qubits (.inl step) := by
    refine forall_steps (Entry.Placed call.qubits) ?_ ⟨List.Subset.refl _, distinct⟩ built
    intro callee entries here bodied entry member
    exact (placed_of_body here.distinct bodied entry member).mono here.inside
  obtain ⟨found, mapped⟩ := Pulse.exists_operations tolerance levels
    fun step member => (placed step member).inside
  have emitted : call.operations tolerance = .ok (found.filterMap id) := by
    rw [operations, built]
    change ((steps.flatMap (RotationStep.pulses tolerance)).mapM Pulse.operation? >>= _) = _
    rw [mapped]
    rfl
  refine ⟨_, emitted, ?_, ?_⟩
  · intro operation member
    obtain ⟨_, step, pulse, same, stepMember, ofStep, applied⟩ :=
      exists_step_of_mem_operations emitted member
    cases same.symm.trans built
    obtain ⟨rfl, within, wellFormed⟩ := Pulse.operation_of_pulse applied
    have onStep := (RotationStep.within_of_mem_pulses ofStep).qubits
    have onCall := List.Subset.trans onStep (placed step stepMember).inside
    exact ⟨within.mono onCall, wellFormed,
      RotationStep.nodup_of_mem_pulses (placed step stepMember).distinct ofStep⟩
  · intro controlled operation member
    obtain ⟨_, step, pulse, same, stepMember, ofStep, applied⟩ :=
      exists_step_of_mem_operations emitted member
    cases same.symm.trans built
    obtain ⟨rfl, -, -⟩ := Pulse.operation_of_pulse applied
    have stepControlled : step.controlCount ≠ 0 := by
      refine forall_steps (Entry.controlCount · ≠ 0) ?_ controlled built step stepMember
      intro callee entries here bodied
      exact controlled_of_body here bodied
    exact RotationStep.inBasis_of_mem_pulses stepControlled ofStep

/-- A call of one pulse has its operation, if there is one. -/
theorem Call.eq_toList_of_pulse {call : Call (Unitary R) Qudit} {tolerance : R}
    {step : RotationStep (Unitary R) Qudit} {pulse : Pulse R Qudit}
    (built : call.steps = .ok [step]) (single : step.pulses tolerance = [pulse])
    {operations : List (Operation R)} (emitted : call.operations tolerance = .ok operations) :
    ∃ operation?, pulse.operation? = .ok operation? ∧ operations = operation?.toList := by
  rw [Call.operations, liftFault_eq_ok_iff.mpr built] at emitted
  obtain ⟨_, ⟨⟩, emitted⟩ := bind_eq_ok_iff.mp emitted
  rw [List.flatMap_singleton, single, List.mapM_cons] at emitted
  obtain ⟨found, mapped, equal⟩ := bind_eq_ok_iff.mp emitted
  obtain ⟨operation?, applied, mapped⟩ := bind_eq_ok_iff.mp mapped
  cases equal
  cases mapped
  refine ⟨operation?, applied, ?_⟩
  cases operation? <;> rfl

/-- Without controls a matrix is applied as it is, if it is unitary. -/
theorem Call.operations_of_matrix {matrix : Unitary R} {target : Qudit} {tolerance : R}
    {operations : List (Operation R)}
    (emitted : (Call.rotate matrix [] target []).operations tolerance = .ok operations) :
    operations = [] ∨ operations = [⟨.matrix matrix [2], [target]⟩] := by
  have built : (Call.rotate matrix [] target []).steps = .ok [.apply matrix target] :=
    RotationStep.rotate_nil
  obtain ⟨operation?, applied, rfl⟩ := eq_toList_of_pulse built rfl emitted
  cases operation? with
  | none => exact .inl rfl
  | some operation =>
      obtain ⟨rfl, -, -⟩ := Pulse.operation_of_pulse applied
      exact .inr rfl

/-- Without controls a flip is an exchange of levels. -/
theorem Call.operations_of_flip {target : Qudit} {borrowed : List Qudit} {tolerance : R}
    {operations : List (Operation R)}
    (emitted : (Call.flip [] target borrowed : Call (Unitary R) Qudit).operations tolerance =
      .ok operations) :
    operations = [⟨.x, [target]⟩] := by
  have built : (Call.flip [] target borrowed : Call (Unitary R) Qudit).steps =
      .ok [.flip target] :=
    steps_eq_expand _
  obtain ⟨operation?, applied, rfl⟩ := eq_toList_of_pulse built rfl emitted
  cases operation? with
  | none =>
      obtain ⟨_, _, absent⟩ := bind_eq_ok_iff.mp applied
      cases absent
  | some operation =>
      obtain ⟨rfl, -, -⟩ := Pulse.operation_of_pulse applied
      rfl

/-- **What a synthesis emits.** Under different qubits every 2×2 matrix is synthesized. The
operations are valid, each on different qubits among the controls and the target. Without controls
there is at most one, the matrix on the target; with controls there are only `Rz`, `Ry`,
`PhaseShift` and `CX`. A flip with borrowed qubits succeeds and stays among the controls, the
target and what is borrowed; without controls it is one exchange of levels. -/
theorem synthesis_emits_basis_gates (tolerance : R) (controls : List Qudit) (target : Qudit)
    (borrowed : List Qudit)
    (levels : ∀ qubit ∈ controls ++ target :: borrowed, qubit.dimension = 2)
    (distinct : (controls ++ target :: borrowed).Nodup) :
    (∀ matrix : Unitary R, matrix.rows = 2 → matrix.cols = 2 →
      ∃ operations, synthesize matrix controls target tolerance = .ok operations ∧
        (∀ operation ∈ operations, operation.Placed (controls ++ [target])) ∧
        (controls = [] → operations = [] ∨ operations = [⟨.matrix matrix [2], [target]⟩]) ∧
        (controls ≠ [] → ∀ operation ∈ operations, operation.gate.InBasis)) ∧
    ∃ operations,
      (Call.flip controls target borrowed : Call (Unitary R) Qudit).operations tolerance =
        .ok operations ∧
      (∀ operation ∈ operations, operation.Placed (controls ++ target :: borrowed)) ∧
      (controls = [] → operations = [⟨.x, [target]⟩]) ∧
      (controls ≠ [] → ∀ operation ∈ operations, operation.gate.InBasis) := by
  constructor
  · intro matrix rows cols
    have among : (controls ++ [target]).Sublist (controls ++ target :: borrowed) :=
      ((List.nil_sublist borrowed).cons_cons target).append_left controls
    obtain ⟨operations, emitted, placed, basis⟩ := Call.exists_operations
      (.rotate matrix controls target []) tolerance
      (fun qubit member => levels qubit (among.subset member)) (distinct.sublist among)
    refine ⟨operations, ?_, placed, ?_, ?_⟩
    · rw [synthesize_eq_operations ⟨rows.ge, cols.ge⟩, emitted]
    · rintro rfl
      exact Call.operations_of_matrix emitted
    · intro some
      exact basis (mt List.length_eq_zero_iff.mp some)
  · obtain ⟨operations, emitted, placed, basis⟩ := Call.exists_operations (R := R)
      (.flip controls target borrowed) tolerance levels distinct
    refine ⟨operations, emitted, placed, ?_, ?_⟩
    · rintro rfl
      exact Call.operations_of_flip emitted
    · intro some
      exact basis (mt List.length_eq_zero_iff.mp some)

/-- An exchange under five qubits, and a flip under them that borrows another. -/
theorem synthesis_emits_basis_gates_five :
    let register : List Qudit := Qudit.qubits 5 ++ .qubit 5 :: [.qubit 6]
    (∀ qubit ∈ register, qubit.dimension = 2) ∧ register.Nodup ∧
    (∃ operations,
      synthesize Unitary.flip (Qudit.qubits 5) (.qubit 5) (0 : Float) = .ok operations ∧
      (∀ operation ∈ operations, operation.Placed (Qudit.qubits 5 ++ [.qubit 5])) ∧
      ∀ operation ∈ operations, operation.gate.InBasis) ∧
    ∃ operations,
      (Call.flip (Qudit.qubits 5) (.qubit 5) [.qubit 6] : Call (Unitary Float) Qudit).operations 0 =
        .ok operations ∧
      (∀ operation ∈ operations, operation.Placed register) ∧
      ∀ operation ∈ operations, operation.gate.InBasis := by
  intro register
  have levels : ∀ qubit ∈ register, qubit.dimension = 2 := by decide
  have distinct : register.Nodup := by decide
  obtain ⟨matrices, flip⟩ := synthesis_emits_basis_gates (0 : Float) _ _ _ levels distinct
  obtain ⟨rotations, synthesized, placed, -, basis⟩ := matrices Unitary.flip rfl rfl
  obtain ⟨flips, flipped, among, -, ofBasis⟩ := flip
  have some : Qudit.qubits 5 ≠ [] := List.cons_ne_nil _ _
  exact ⟨levels, distinct, ⟨rotations, synthesized, placed, basis some⟩,
    flips, flipped, among, ofBasis some⟩

end QuditCircuits
