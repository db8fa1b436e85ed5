import QuditCircuits.Proofs.Decomposition.Register
import QuditCircuits.Proofs.Gate.Blocks

/-!
# Operations that steps reach

Applying a gate checks its qudits. Reading a controlled operation as an operation skips this
check, and so does taking out the operation that it guards. Every operation that a sequence of
steps reaches still matches its gate (`Operation.Reachable.matched`), whatever the gates are. A
controlled gate comes to the same operation if it is applied without its controls kept apart
(`ControlledGate.map_toOperation_on`).
-/

namespace QuditCircuits

variable {R : Type}

/-! ## Controlled operations -/

namespace ControlledGate

variable {gate : ControlledGate R} {qudits : List Qudit} {bound : ControlledOperation R}

theorem qudits_of_on (applied : gate.on qudits = .ok bound) : bound.qudits = qudits := by
  obtain ⟨rfl, -⟩ := eq_bind_of_on applied
  exact List.take_append_drop _ _

theorem toOperation_of_on (applied : gate.on qudits = .ok bound) :
    bound.toOperation = ⟨gate.toGate, qudits⟩ := by
  rw [ControlledOperation.toOperation, gate_of_on applied, qudits_of_on applied]

/-- The guarded operation is on the qudits behind the controls. -/
theorem within_of_on (applied : gate.on qudits = .ok bound) : bound.sub.Within qudits := by
  obtain ⟨rfl, fits⟩ := eq_bind_of_on applied
  refine ⟨Gate.checkQudits_eq_ok_iff.mpr ?_, List.drop_subset _ _⟩
  exact (ControlledGate.dimensions_of_checkQudits fits).2.symm

/-- A controlled gate can be applied to the qudits that match it. -/
theorem on_eq_ok {first : Qudit} {rest : List Qudit}
    (fits : gate.toGate.checkQudits (first :: rest) = .ok ()) :
    gate.on (first :: rest) = .ok (gate.bind (first :: rest)) := by
  change (do gate.toGate.checkQudits (first :: rest); return gate.bind (first :: rest)) = _
  rw [fits]
  rfl

/-- Keeping the controls apart makes no difference to what a controlled gate is applied to, nor
to the reasons why it is refused. -/
theorem map_toOperation_on :
    (gate.on qudits).map ControlledOperation.toOperation = gate.toGate.on qudits := by
  cases qudits with
  | nil => rfl
  | cons first rest =>
      change _ = Operation.make gate.toGate (first :: rest)
      cases checked : gate.toGate.checkQudits (first :: rest) with
      | error reason =>
          change (do gate.toGate.checkQudits (first :: rest); return gate.bind (first :: rest)).map
            ControlledOperation.toOperation = _
          rw [Operation.make, checked]
          rfl
      | ok _ =>
          have applied := on_eq_ok checked
          rw [applied, Operation.make, checked]
          exact congrArg Except.ok (toOperation_of_on applied)

end ControlledGate

/-! ## Steps -/

namespace Operation

variable [Scalar R]

/-- The operations that steps reach, in any order and number, with rotations under controls
built by default. -/
inductive Reachable : Operation R → Prop
  | make {gate : Gate R} {qudits : List Qudit} {operation : Operation R}
      (made : make gate qudits = .ok operation) : Reachable operation
  | on {gate : Gate R} {qudits : List Qudit} {operation : Operation R}
      (applied : gate.on qudits = .ok operation) : Reachable operation
  | controlledBy {operation wrapped : Operation R} {controls : List Qudit}
      {condition : Option Condition} (whole : Reachable operation)
      (success : operation.controlledBy controls condition = .ok wrapped) : Reachable wrapped
  | bound {gate : ControlledGate R} {qudits : List Qudit} {bound : ControlledOperation R}
      (applied : gate.on qudits = .ok bound) : Reachable bound.toOperation
  | guarded {gate : ControlledGate R} {qudits : List Qudit} {bound : ControlledOperation R}
      (applied : gate.on qudits = .ok bound) : Reachable bound.sub
  | part {settings : DecompositionSettings R (GateResult R)} {operation part : Operation R}
      {parts : List (Operation R)} (default : settings.synthesize = synthesize)
      (whole : Reachable operation)
      (decomposed : operation.decompose settings = .ok (some parts)) (member : part ∈ parts) :
      Reachable part
  | piece {settings : DecompositionSettings R (GateResult R)}
      {operations result : List (Operation R)} {part : Operation R}
      (default : settings.synthesize = synthesize)
      (whole : ∀ operation ∈ operations, Reachable operation)
      (decomposed : decomposeAll settings operations = .ok result) (member : part ∈ result) :
      Reachable part

/-- By induction on the steps: each of them keeps qudits and gates matched. -/
theorem Reachable.matched {operation : Operation R} (reachable : operation.Reachable) :
    operation.gate.checkQudits operation.qudits = .ok () := by
  induction reachable with
  | make made => exact (within_of_make made).matched
  | on applied => exact (within_of_on applied).matched
  | controlledBy whole success ih =>
      exact (within_of_controlledBy ⟨ih, List.Subset.refl _⟩ success).matched
  | bound applied =>
      rw [ControlledGate.toOperation_of_on applied]
      exact (ControlledGate.eq_bind_of_on applied).2
  | guarded applied => exact (ControlledGate.within_of_on applied).matched
  | part default whole decomposed member ih =>
      exact (Gate.within_of_decompose default decomposed _ member).matched
  | piece default whole decomposed member ih =>
      obtain ⟨pieces, rfl, within⟩ := within_of_decomposeAll default ih decomposed
      obtain ⟨piece, listed, inside⟩ := List.mem_flatten.mp member
      obtain ⟨index, small, rfl⟩ := List.mem_iff_getElem.mp listed
      exact (within.get (within.length_eq.symm ▸ small) small _ inside).matched

end Operation

variable [Scalar R]

/-- **Operations stay well-formed and within their registers.** An operation that steps reach
matches its gate. With the default synthesis, the parts it is decomposed into match their gates
and act on its qudits only, and so does the piece of a full decomposition that stands for it. A
controlled gate applied to one or more qudits comes to the same operation as an ordinary gate,
with the same refusals, and gives back its gate and its qudits. -/
theorem operations_stay_within_registers (settings : DecompositionSettings R (GateResult R))
    (default : settings.synthesize = synthesize) :
    (∀ operation : Operation R, operation.Reachable →
      operation.gate.checkQudits operation.qudits = .ok () ∧
        ∀ parts, operation.decompose settings = .ok (some parts) →
          ∀ part ∈ parts, part.Within operation.qudits) ∧
      (∀ operations result : List (Operation R),
        (∀ operation ∈ operations, operation.Reachable) →
        decomposeAll settings operations = .ok result →
        ∃ pieces, result = pieces.flatten ∧
          List.Forall₂ (fun operation piece => ∀ part ∈ piece, part.Within operation.qudits)
            operations pieces) ∧
      ∀ (gate : ControlledGate R) (qudits : List Qudit), qudits ≠ [] →
        (gate.on qudits).map ControlledOperation.toOperation =
            Operation.make gate.toGate qudits ∧
          ∀ bound, gate.on qudits = .ok bound → bound.gate = gate ∧ bound.qudits = qudits := by
  refine ⟨?_, ?_, ?_⟩
  · intro operation reachable
    exact ⟨reachable.matched, fun parts apart => Gate.within_of_decompose default apart⟩
  · intro operations result reachable decomposed
    have matched : ∀ operation ∈ operations, operation.gate.checkQudits operation.qudits = .ok () :=
      fun operation member => (reachable operation member).matched
    exact within_of_decomposeAll default matched decomposed
  · intro gate qudits nonempty
    refine ⟨?_, fun bound applied =>
      ⟨ControlledGate.gate_of_on applied, ControlledGate.qudits_of_on applied⟩⟩
    cases qudits with
    | nil => exact absurd rfl nonempty
    | cons first rest => exact ControlledGate.map_toOperation_on

/-- A circuit on two qubits under a qutrit at one of the levels zero and two, taken apart and
decomposed in full. -/
theorem operations_stay_within_registers_circuit :
    let circuit : Gate Float := .composite [2, 2] (.step .cx [1, 0] (.step .x [0] .done))
    let outside : Condition := .product (.ofSpecs [.set [0, 2]])
    let guarded : ControlledGate Float := ⟨circuit, outside, [3]⟩
    let line : List Qudit := [⟨0, 3, by decide⟩, .qubit 1, .qubit 2]
    let parts : List (Operation Float) :=
      [⟨.controlled .cx outside [3], [⟨0, 3, by decide⟩, .qubit 2, .qubit 1]⟩,
        ⟨.controlled .x outside [3], [⟨0, 3, by decide⟩, .qubit 1]⟩]
    ∃ bound, guarded.on line = .ok bound ∧ bound.gate = guarded ∧ bound.qudits = line ∧
      Operation.make guarded.toGate line = .ok bound.toOperation ∧
      bound.toOperation.decompose .standard = .ok (some parts) ∧
      (∀ part ∈ parts, part.Within line) ∧
      ∃ pieces, parts = pieces.flatten ∧
        List.Forall₂ (fun operation piece => ∀ part ∈ piece, part.Within operation.qudits)
          [bound.toOperation] pieces := by
  intro circuit outside guarded line parts
  have reached : (guarded.bind line).toOperation.Reachable :=
    .bound (show guarded.on line = .ok (guarded.bind line) from rfl)
  have apart : (guarded.bind line).toOperation.decompose .standard = .ok (some parts) := rfl
  obtain ⟨each, every, same⟩ := operations_stay_within_registers (R := Float) .standard rfl
  obtain ⟨made, back⟩ := same guarded line (List.cons_ne_nil _ _)
  obtain ⟨gate, qudits⟩ := back _ rfl
  refine ⟨guarded.bind line, rfl, gate, qudits, made.symm, apart,
    (each _ reached).2 parts apart, ?_⟩
  exact every [(guarded.bind line).toOperation] parts (List.forall_mem_singleton.mpr reached) rfl

end QuditCircuits
