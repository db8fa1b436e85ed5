import QuditCircuits.Gate.Diagram
import QuditCircuits.Proofs.Gate.Reachable

/-!
# Sizes of matrices and drawings

What describes a gate has the size of its register: its matrix and the parts of its mixture are
square of the dimension of its shape, and a drawing has one symbol for each qudit, however it is
asked for. So the matrix of a gate is never read outside itself when it is embedded at qudits that
match the gate, be they different or not (`Operation.embed_cases`).
-/

namespace QuditCircuits

open DenseMatrix Register

/-- A condition is drawn on each of its qudits. -/
theorem Condition.length_wireSymbols {condition : Condition} :
    condition.wireSymbols.length = condition.width := by
  cases condition with
  | product conjunction => exact List.length_map _
  | sum disjunction => exact List.length_replicate

variable {R : Type} [Scalar R]

namespace Gate

/-- The matrices in the mixture of a well-formed gate fill the register of the gate. -/
theorem size_of_mem_mixture {gate : Gate R} {parts : List (R × Unitary R)}
    (wellFormed : gate.WellFormed) (present : gate.mixture = .ok (some parts)) :
    ∀ part ∈ parts, part.2.rows = gate.shape.prod ∧ part.2.cols = gate.shape.prod := by
  cases controlled : gate.isControlled with
  | false => exact size_of_mixture wellFormed controlled present
  | true =>
      obtain ⟨sub, condition, shape, rfl⟩ := exists_of_isControlled controlled
      obtain ⟨subWellFormed, single, _, positive, valid, _⟩ := wellFormed
      rw [mixture_controlled positive] at present
      obtain ⟨sub?, subPresent, present⟩ := bind_eq_ok_iff.mp present
      cases sub? with
      | none => cases present
      | some subParts =>
          obtain ⟨wholes, embedded, equal⟩ := bind_eq_ok_iff.mp present
          cases equal
          intro part member
          obtain ⟨subPart, listed, made⟩ := exists_of_mem_mapM embedded member
          obtain ⟨whole, embeds, equal⟩ := bind_eq_ok_iff.mp made
          cases equal
          obtain ⟨rows, cols⟩ := size_of_mixture subWellFormed single subPresent subPart listed
          obtain ⟨_, rfl⟩ := (controlledEmbedding_eq_ok_iff (List.forall_mem_append.mp positive).1
            valid (cols.trans rows.symm)).mp embeds
          have size : shape.prod * subPart.2.rows = (shape ++ sub.shape).prod := by
            rw [rows, List.prod_append]
          exact ⟨size, size⟩

/-- The basis states of a gate with a matrix can be counted. -/
theorem prod_lt_of_unitary {gate : Gate R} {matrix : Unitary R} (wellFormed : gate.WellFormed)
    (present : gate.unitary = .ok (some matrix)) : gate.shape.prod < Machine.wordRange := by
  match gate with
  | .x | .phaseFlip => exact (by decide : [2].prod < Machine.wordRange)
  | .cx => exact (by decide : [2, 2].prod < Machine.wordRange)
  | .angle family _ => exact (by cases family <;> decide : family.shape.prod < Machine.wordRange)
  | .measurement _ _ | .bitFlip _ | .reset =>
      rw [unitary] at present
      cases present
  | .diagonal table =>
      rw [unitary] at present
      obtain ⟨_, reserved, _⟩ := bind_eq_ok_iff.mp present
      have size : (List.replicate table.qubits 2).prod = table.angles.size := by
        rw [table.size_eq, List.prod_replicate_nat]
        rfl
      have addressed := Machine.reserve_eq_ok_iff.mp reserved
      calc (List.replicate table.qubits 2).prod = table.angles.size := size
        _ ≤ table.angles.size * table.angles.size := Nat.le_mul_self _
        _ ≤ table.angles.size * table.angles.size * amplitudeWidth :=
          Nat.le_mul_of_pos_right _ (by decide)
        _ < Machine.addressRange := addressed
        _ ≤ Machine.wordRange := by decide
  | .matrix entries shape =>
      obtain ⟨size, counted, _⟩ := bind_eq_ok_iff.mp wellFormed
      exact (Machine.eq_of_product_eq_ok counted).2
  | .idle shape =>
      rw [unitary] at present
      obtain ⟨size, counted, _⟩ := bind_eq_ok_iff.mp present
      exact (Machine.eq_of_product_eq_ok counted).2
  | .controlled sub condition shape =>
      obtain ⟨subWellFormed, _, _, positive, valid, _⟩ := wellFormed
      rw [unitary_controlled positive] at present
      obtain ⟨sub?, subPresent, present⟩ := bind_eq_ok_iff.mp present
      cases sub? with
      | none => cases present
      | some subMatrix =>
          obtain ⟨whole, embedded, _⟩ := bind_eq_ok_iff.mp present
          obtain ⟨rows, cols⟩ := size_of_unitary subWellFormed subPresent
          obtain ⟨storable, -⟩ := (controlledEmbedding_eq_ok_iff
            (List.forall_mem_append.mp positive).1 valid (cols.trans rows.symm)).mp embedded
          rw [Gate.shape, List.prod_append, ← rows]
          exact storable.size
  | .composite shape body =>
      rw [unitary] at present
      obtain ⟨line, built, present⟩ := bind_eq_ok_iff.mp present
      split at present
      case h_1 => cases present
      case h_2 => cases present
      case h_3 operations placed =>
        rw [Gate.shape, ← Qudit.dimensions_lineFrom built]
        exact (storable_of_composeStages present).blocks

/-- A gate is drawn with one symbol for each qudit. By induction on the controls in front. -/
theorem length_wires [Written R] {gate : Gate R} {options : DiagramOptions} {drawn : Diagram R}
    (wellFormed : gate.WellFormed) (found : gate.diagram options = .ok (some drawn)) :
    drawn.wires.length = gate.arity := by
  match gate with
  | .x | .cx =>
      cases found
      rfl
  | .matrix _ _ | .measurement _ _ =>
      cases found
      exact List.length_replicate
  | .reset | .idle _ | .phaseFlip | .composite _ _ => cases found
  | .angle family _ =>
      obtain ⟨_, _, equal⟩ := bind_eq_ok_iff.mp found
      cases equal
      exact List.length_replicate
  | .diagonal table =>
      obtain ⟨_, _, equal⟩ := bind_eq_ok_iff.mp found
      cases equal
      exact List.length_replicate.trans List.length_replicate.symm
  | .bitFlip _ =>
      obtain ⟨_, _, equal⟩ := bind_eq_ok_iff.mp found
      cases equal
      rfl
  | .controlled sub condition shape =>
      obtain ⟨subWellFormed, _, _, _, valid, _⟩ := wellFormed
      obtain ⟨inner?, subFound, found⟩ := bind_eq_ok_iff.mp found
      obtain ⟨inner, rfl, rfl⟩ := Option.map_eq_some_iff.mp (Except.ok.inj found)
      rw [List.length_append, Condition.length_wireSymbols, length_wires subWellFormed subFound,
        ← Condition.length_eq_of_validate valid, arity, arity, Gate.shape, List.length_append]

/-- The matrix of a gate has the size of qudits that match the gate. -/
theorem fills {gate : Gate R} {qudits : List Qudit} (wellFormed : gate.WellFormed)
    (fits : gate.checkQudits qudits = .ok ()) : Stage.Fills (gate.unitary, qudits) := by
  intro matrix present
  obtain ⟨rows, cols⟩ := size_of_unitary wellFormed present
  have small := prod_lt_of_unitary wellFormed present
  rw [checkQudits_eq_ok_iff.mp fits] at rows cols small
  exact ⟨rows, cols, small⟩

end Gate

/-- Where an operation has a matrix and a place in a register, the matrix is embedded unless the
register is too large. -/
theorem Operation.embed_cases {operation : Operation R} {register : List Qudit}
    {positions : List Nat} {matrix : Unitary R} (wellFormed : operation.gate.WellFormed)
    (fits : operation.gate.checkQudits operation.qudits = .ok ())
    (found : positionsIn register operation.qudits = some positions)
    (present : operation.gate.unitary = .ok (some matrix)) :
    (Storable amplitudeWidth (Qudit.dimensions register) 1 ∧
        embed amplitudeWidth matrix positions (Qudit.dimensions register) =
          .ok (placed matrix positions (Qudit.dimensions register))) ∨
      ¬Storable amplitudeWidth (Qudit.dimensions register) 1 ∧
        embed amplitudeWidth matrix positions (Qudit.dimensions register) = .error
          (if (Qudit.dimensions register).prod < Machine.wordRange then .capacity
          else .overflow) := by
  have filled := Gate.fills wellFormed fits
  by_cases storable : Storable amplitudeWidth (Qudit.dimensions register) 1
  · exact .inl ⟨storable, Stage.embed_eq_ok storable (present ▸ filled) found⟩
  · have place := placedAt_of_positionsIn found
    have small := (filled matrix present).2.2
    rw [place.dimensions] at small
    exact .inr ⟨storable, embed_eq_error Qudit.pos_of_mem_dimensions place.inside small storable⟩

/-- The circuit of operations that match their gates faults only for a register that is too
large, or where a gate faults by itself. -/
theorem fault_of_unitaryOf {operations : List (Operation R)} {register : List Qudit}
    {fault : Fault} (wellFormed : ∀ operation ∈ operations, operation.gate.WellFormed)
    (fits : ∀ operation ∈ operations, operation.gate.checkQudits operation.qudits = .ok ())
    (faults : unitaryOf operations register = .error fault) :
    fault = .overflow ∨ fault = .capacity ∨
      ∃ operation ∈ operations, operation.gate.unitary = .error fault := by
  by_cases storable : Storable amplitudeWidth (Qudit.dimensions register) 1
  · rw [unitaryOf, composeStages_eq_applyStages storable] at faults
    have fills : ∀ stage ∈ operations.map fun operation =>
        (operation.gate.unitary, operation.qudits), Stage.Fills stage :=
      List.forall_mem_map.mpr fun operation member =>
        Gate.fills (wellFormed operation member) (fits operation member)
    obtain ⟨_, member, same⟩ := fault_of_applyStages storable fills (by rfl) faults
    obtain ⟨operation, listed, rfl⟩ := List.mem_map.mp member
    exact .inr (.inr ⟨operation, listed, same⟩)
  · rw [unitaryOf, composeStages_eq_error storable] at faults
    cases faults
    split
    case isTrue => exact .inr (.inl rfl)
    case isFalse => exact .inl rfl

/-- **Matrices and drawings fill the register of a gate.** Whatever sequence of operations
reaches a gate, its matrix and every part of its mixture are square of the dimension of its
shape, and every drawing of it has one symbol for each qudit. So the matrix of an operation that
matches its gate is embedded in every register that can be stored, without reading outside the
matrix, also where qudits repeat; a circuit of such operations faults only for a register that is
too large, or where a gate faults by itself. -/
theorem matrices_and_drawings_fill_registers [Written R] :
    (∀ gate : Gate R, gate.Reachable →
      (∀ matrix, gate.unitary = .ok (some matrix) →
        matrix.rows = gate.shape.prod ∧ matrix.cols = gate.shape.prod) ∧
      (∀ parts, gate.mixture = .ok (some parts) →
        ∀ part ∈ parts, part.2.rows = gate.shape.prod ∧ part.2.cols = gate.shape.prod) ∧
      ∀ options drawn, gate.diagram options = .ok (some drawn) →
        drawn.wires.length = gate.arity) ∧
    (∀ (operation : Operation R) (register : List Qudit) (positions : List Nat)
      (matrix : Unitary R), operation.gate.Reachable →
      operation.gate.checkQudits operation.qudits = .ok () →
      positionsIn register operation.qudits = some positions →
      operation.gate.unitary = .ok (some matrix) →
      (Storable amplitudeWidth (Qudit.dimensions register) 1 →
        ∃ whole, embed amplitudeWidth matrix positions (Qudit.dimensions register) = .ok whole ∧
          whole.rows = (Qudit.dimensions register).prod ∧
          whole.cols = (Qudit.dimensions register).prod) ∧
      ∀ fault, embed amplitudeWidth matrix positions (Qudit.dimensions register) = .error fault →
        fault = .overflow ∨ fault = .capacity) ∧
    ∀ (operations : List (Operation R)) (register : List Qudit) (fault : Fault),
      (∀ operation ∈ operations, operation.gate.Reachable ∧
        operation.gate.checkQudits operation.qudits = .ok ()) →
      unitaryOf operations register = .error fault →
      fault = .overflow ∨ fault = .capacity ∨
        ∃ operation ∈ operations, operation.gate.unitary = .error fault := by
  refine ⟨?_, ?_, ?_⟩
  · intro gate reached
    exact ⟨fun _ => Gate.size_of_unitary reached.wellFormed,
      fun _ => Gate.size_of_mem_mixture reached.wellFormed,
      fun _ _ => Gate.length_wires reached.wellFormed⟩
  · intro operation register positions matrix reached fits found present
    rcases Operation.embed_cases reached.wellFormed fits found present with
      ⟨storable, embedded⟩ | ⟨large, embedded⟩
    · refine ⟨fun _ => ⟨_, embedded, rfl, rfl⟩, fun fault faults => ?_⟩
      rw [embedded] at faults
      cases faults
    · refine ⟨fun storable => absurd storable large, fun fault faults => ?_⟩
      rw [embedded] at faults
      cases faults
      split
      case isTrue => exact .inr rfl
      case isFalse => exact .inl rfl
  · intro operations register fault matched faults
    exact fault_of_unitaryOf (fun operation member => (matched operation member).1.wellFormed)
      (fun operation member => (matched operation member).2) faults

/-- A circuit of an exchange under a qubit, and the exchange itself, under a qutrit at one of the
levels zero and two. The circuit is placed on a qutrit and twice on the same qubit. -/
theorem matrices_and_drawings_fill_registers_circuit :
    let outside : Condition := .product (.ofSpecs [.set [0, 2]])
    let circuit : Gate Float := .composite [2, 2] (.step .cx [1, 0] .done)
    let guarded : Gate Float := .controlled circuit outside [3]
    let exchange : Gate Float := .controlled .cx outside [3]
    let qutrit : Qudit := ⟨0, 3, by decide⟩
    positionsIn [.qubit 0, qutrit] [qutrit, .qubit 0, .qubit 0] = some [1, 0, 0] ∧
    (∃ matrix, guarded.unitary = .ok (some matrix) ∧ matrix.rows = 12 ∧ matrix.cols = 12 ∧
      ∃ whole, embed amplitudeWidth matrix [1, 0, 0] (Qudit.dimensions [.qubit 0, qutrit]) =
          .ok whole ∧ whole.rows = 6) ∧
    (∃ parts, guarded.mixture = .ok (some parts) ∧ ∀ part ∈ parts, part.2.rows = 12) ∧
    (∃ drawn, exchange.diagram { unicode := false } = .ok (some drawn) ∧
      drawn.wires.length = 3) := by
  intro outside circuit guarded exchange qutrit
  have circuitReached : circuit.Reachable :=
    .composite (List.forall_mem_singleton.mpr (.primitive rfl))
  have guardedBuilt : circuit.control { condition := some outside, shape := some [3] } =
      .ok ⟨circuit, outside, [3]⟩ := rfl
  have exchangeBuilt : (Gate.cx : Gate Float).control
      { condition := some outside, shape := some [3] } = .ok ⟨.cx, outside, [3]⟩ := rfl
  have guardedReached : guarded.Reachable := .control circuitReached guardedBuilt
  have exchangeReached : exchange.Reachable := .control (.primitive rfl) exchangeBuilt
  obtain ⟨sizes, embeds, -⟩ := matrices_and_drawings_fill_registers (R := Float)
  obtain ⟨unitarySize, mixtureSize, -⟩ := sizes guarded guardedReached
  obtain ⟨inner, innerPresent⟩ : ∃ inner, circuit.unitary = .ok (some inner) := ⟨_, rfl⟩
  have innerMixes : circuit.mixture = .ok (some [(1, inner)]) := by
    rw [Gate.mixture_eq_unitary rfl (by simp [circuit]), innerPresent]
    rfl
  have guardedWellFormed : (⟨circuit, outside, [3]⟩ : ControlledGate Float).toGate.WellFormed :=
    guardedReached.wellFormed
  have storable : Storable amplitudeWidth [3] 4 := ⟨by decide, by decide, by decide⟩
  obtain ⟨matrix, present⟩ : ∃ matrix, guarded.unitary = .ok (some matrix) :=
    ⟨_, ControlledGate.unitary_eq_controlled guardedWellFormed storable innerPresent⟩
  obtain ⟨parts, mixes⟩ : ∃ parts, guarded.mixture = .ok (some parts) :=
    ⟨_, ControlledGate.mixture_eq_controlled guardedWellFormed storable innerMixes⟩
  obtain ⟨rows, cols⟩ := unitarySize matrix present
  obtain ⟨whole, embedded, wholeRows, -⟩ :=
    (embeds ⟨guarded, [qutrit, .qubit 0, .qubit 0]⟩ [.qubit 0, qutrit] [1, 0, 0] matrix
      guardedReached rfl rfl present).1 ⟨by decide, by decide, by decide⟩
  exact ⟨rfl, ⟨matrix, present, rows, cols, whole, embedded, wholeRows⟩,
    ⟨parts, mixes, fun part member => (mixtureSize parts mixes part member).1⟩,
    _, rfl, (sizes exchange exchangeReached).2.2 { unicode := false } _ rfl⟩

end QuditCircuits
