import QuditCircuits.Proofs.Decomposition.Outcome
import QuditCircuits.Proofs.Decomposition.Register
import QuditCircuits.Proofs.Decomposition.Worklist

/-!
# What is left of a controlled gate

Fully decomposing a controlled gate around a gate that is no circuit meets simple gates, and no
other controlled gates than the gate itself and turns of its target under its controls
(`ControlledGate.Yields`). Such a turn is irreducible only if the gate is, so that each turn of
the loop keeps irreducible gates from coming in (`Worklist.sound_of_turn`). What is left of other
gates is elementary.
-/

namespace QuditCircuits

variable {R : Type} [Scalar R] {settings : DecompositionSettings R (GateResult R)}

/-- Turns are of qubits. -/
theorem AngleFamily.eq_two_of_mem_shape {family : AngleFamily} {dimension : Nat}
    (inside : dimension ∈ family.shape) : dimension = 2 := by
  cases family with
  | rz | ry | phaseShift => exact List.mem_singleton.mp inside
  | globalPhase => cases inside

theorem AngleFamily.length_shape_le (family : AngleFamily) : family.shape.length ≤ 1 := by
  cases family <;> decide

/-- No rule takes an elementary gate apart. -/
theorem Gate.decompose_of_isElementary {gate : Gate R} (elementary : gate.isElementary = true)
    (qudits : List Qudit) : gate.decompose settings qudits = .ok none := by
  cases gate with
  | x | cx | angle | diagonal => rfl
  | matrix | measurement | bitFlip | controlled | reset | idle | phaseFlip | composite =>
      cases elementary

/-- A simple gate that is not elementary is a matrix, which becomes turns. -/
theorem Gate.IsSimple.decompose_cases {gate : Gate R} (simple : gate.IsSimple)
    (settings : DecompositionSettings R (GateResult R)) {qudits : List Qudit}
    (fits : gate.checkQudits qudits = .ok ()) :
    (gate.isElementary = true ∧ gate.decompose settings qudits = .ok none) ∨
      ∃ parts, gate.decompose settings qudits = .ok (some parts) ∧
        ∀ part ∈ parts, part.gate.isElementary = true := by
  rcases simple with elementary | ⟨entries, accepted⟩
  · exact .inl ⟨elementary, decompose_of_isElementary elementary qudits⟩
  · obtain rfl := eq_of_ofMatrix accepted
    have qubit : Qudit.dimensions qudits = [2] := (checkQudits_eq_ok_iff.mp fits).symm
    obtain ⟨turns, turned, -⟩ := (EulerAngles.ofMatrix entries).exists_operations
      settings.extractsGlobalPhases settings.tolerance qubit
    refine .inr ⟨turns, ?_, fun turn member => ?_⟩
    · rw [decompose, if_pos rfl]
      exact bind_eq_ok_iff.mpr ⟨turns, turned, rfl⟩
    · exact (EulerAngles.applies_of_operations turned turn member).kind

namespace ControlledGate

variable {gate kept : ControlledGate R} {family : AngleFamily} {angle : R}

/-- A turn under the controls of a plain gate is plain. -/
theorem IsPlain.turning (plain : gate.IsPlain) : (gate.turning family angle).IsPlain := by
  obtain ⟨-, -, -, positive, valid, simplified⟩ := plain.wellFormed
  refine ⟨⟨trivial, rfl, rfl, ?_, valid, simplified⟩, rfl, nofun⟩
  intro dimension inside
  rcases List.mem_append.mp inside with control | target
  · exact positive dimension (List.mem_append_left _ control)
  · exact (AngleFamily.eq_two_of_mem_shape target).symm ▸ Nat.two_pos

/-- A turn under controls is irreducible because of the controls. -/
theorem Irreducible.of_turning (single : gate.sub.arity = 1)
    (irreducible : (gate.turning family angle).Irreducible) : gate.Irreducible := by
  rcases irreducible with absent | ⟨dimension, inside, different⟩ | several | ⟨-, sum⟩
  · cases absent
  · refine .inr (.inl ⟨dimension, ?_, different⟩)
    rcases List.mem_append.mp inside with control | target
    · exact List.mem_append_left _ control
    · exact absurd (AngleFamily.eq_two_of_mem_shape target) different
  · exact absurd several (Nat.not_le.mpr (Nat.lt_succ_of_le family.length_shape_le))
  · exact .inr (.inr (.inr ⟨single, sum⟩))

/-- The controlled gates that fully decomposing a controlled gate meets. -/
inductive Meets (gate : ControlledGate R) : ControlledGate R → Prop
  | whole : gate.Meets gate
  | turning {family : AngleFamily} {angle : R} (single : gate.sub.arity = 1) :
      gate.Meets (gate.turning family angle)

/-- Everything that fully decomposing a controlled gate meets. -/
inductive Yields (gate : ControlledGate R) : Gate R → Prop
  | simple {part : Gate R} (simple : part.IsSimple) : gate.Yields part
  | controlled {kept : ControlledGate R} (met : gate.Meets kept) : gate.Yields kept.toGate

/-- What is left of a controlled gate: elementary gates, and irreducible ones under its controls. -/
inductive Rests (gate : ControlledGate R) : Gate R → Prop
  | elementary {part : Gate R} (elementary : part.isElementary = true) : gate.Rests part
  | controlled {kept : ControlledGate R} (met : gate.Meets kept)
      (irreducible : kept.Irreducible) : gate.Rests kept.toGate

namespace Meets

omit [Scalar R] in
theorem condition_eq (met : gate.Meets kept) : kept.condition = gate.condition := by
  cases met <;> rfl

omit [Scalar R] in
theorem shape_eq (met : gate.Meets kept) : kept.shape = gate.shape := by
  cases met <;> rfl

theorem isPlain (met : gate.Meets kept) (plain : gate.IsPlain) : kept.IsPlain := by
  cases met with
  | whole => exact plain
  | turning single => exact plain.turning

/-- If no rule applies to what is kept, none applies to the gate. -/
theorem irreducible (met : gate.Meets kept) (irreducible : kept.Irreducible) :
    gate.Irreducible := by
  cases met with
  | whole => exact irreducible
  | turning single => exact irreducible.of_turning single

/-- What a rule leaves in place of a gate that is met is met as well. -/
theorem yields_of_leaves (met : gate.Meets kept) {part : Gate R} (leaves : kept.Leaves part) :
    gate.Yields part := by
  cases leaves with
  | simple simple => exact .simple simple
  | turn single =>
      cases met with
      | whole => exact .controlled (.turning single)
      | turning whole => exact .controlled (.turning whole)

end Meets

/-- What rests of a gate is elementary, or is irreducible under its controls. -/
theorem Rests.cases {part : Gate R} (rests : gate.Rests part) :
    part.isElementary = true ∨ ∃ kept : ControlledGate R, part = kept.toGate ∧
      kept.Irreducible ∧ kept.condition = gate.condition ∧ kept.shape = gate.shape := by
  cases rests with
  | elementary elementary => exact .inl elementary
  | controlled met irreducible =>
      exact .inr ⟨_, rfl, irreducible, met.condition_eq, met.shape_eq⟩

/-- Only elementary gates are left of a gate that is not irreducible. -/
theorem Rests.isElementary {part : Gate R} (rests : gate.Rests part)
    (reducible : ¬gate.Irreducible) : part.isElementary = true := by
  cases rests with
  | elementary elementary => exact elementary
  | controlled met irreducible => exact absurd (met.irreducible irreducible) reducible

/-- A phase on qubits is not irreducible, nor is a matrix on a qubit under a product. -/
theorem not_irreducible (qubits : ∀ dimension ∈ gate.toGate.shape, dimension = 2)
    (present : ∃ matrix, gate.sub.unitary = .ok (some matrix))
    (few : gate.sub.arity = 0 ∨ gate.sub.arity = 1 ∧ gate.condition.isProduct = true) :
    ¬gate.Irreducible := by
  rintro (absent | ⟨dimension, inside, different⟩ | several | ⟨single, sum⟩)
  · obtain ⟨matrix, present⟩ := present
    cases absent.symm.trans present
  · exact different (qubits dimension inside)
  · omega
  · rcases few with none | ⟨-, product⟩
    · omega
    · cases condition : gate.condition with
      | product conjunction =>
          rw [condition] at sum
          cases sum
      | sum disjunction =>
          rw [condition] at product
          cases product

/-- **One rule of a full decomposition.** What fully decomposing a controlled gate meets is taken
apart into what it meets, or it is left, or its table of phases is too large. -/
theorem Yields.decompose_cases (plain : gate.IsPlain) (default : settings.synthesize = synthesize)
    {part : Gate R} (yields : gate.Yields part) {qudits : List Qudit}
    (fits : part.checkQudits qudits = .ok ()) :
    (∃ parts, part.decompose settings qudits = .ok (some parts) ∧
        ∀ operation ∈ parts, gate.Yields operation.gate) ∨
      (part.decompose settings qudits = .ok none ∧ gate.Rests part) ∨
      60 ≤ gate.controlCount ∧
        ∃ fault, part.decompose settings qudits = .error (.fault fault) := by
  cases yields with
  | simple simple =>
      rcases simple.decompose_cases settings fits with
        ⟨elementary, decomposed⟩ | ⟨parts, decomposed, elementary⟩
      · exact .inr (.inl ⟨decomposed, .elementary elementary⟩)
      · exact .inl ⟨parts, decomposed,
          fun operation member => .simple (.inl (elementary operation member))⟩
  | @controlled kept met =>
      have controls : kept.controlCount = gate.controlCount := congrArg List.length met.shape_eq
      by_cases phase : kept.IsPhase
      · rcases (met.isPlain plain).decompose_of_isPhase settings phase fits with
          ⟨-, table, -, decomposed⟩ | ⟨large, -, decomposed⟩ | ⟨large, decomposed⟩
        · exact .inl ⟨_, decomposed, List.forall_mem_singleton.mpr (.simple (.inl rfl))⟩
        · exact .inr (.inr ⟨controls ▸ large, _, decomposed⟩)
        · exact .inr (.inr ⟨controls ▸ Nat.le_trans (by decide) large, _, decomposed⟩)
      · rcases (met.isPlain plain).decompose_of_not_isPhase phase default fits with
          ⟨parts, decomposed, leaves⟩ | ⟨irreducible, decomposed⟩
        · exact .inl ⟨parts, decomposed,
            fun operation member => met.yields_of_leaves (leaves operation member)⟩
        · exact .inr (.inl ⟨decomposed, .controlled met irreducible⟩)

end ControlledGate

/-! ## The loop -/

namespace Worklist

variable {gate : ControlledGate R} {state next last : Worklist R}

/-- A state of the loop over a controlled gate: what is finished is left of the gate, and what is
pending has been met on qudits that match it. -/
structure Sound (gate : ControlledGate R) (state : Worklist R) : Prop where
  rests : ∀ operation ∈ state.finished, gate.Rests operation.gate
  yields : ∀ operation ∈ state.pending, gate.Yields operation.gate
  matched : ∀ operation ∈ state.pending, operation.gate.checkQudits operation.qudits = .ok ()

/-- At the start the worklist holds the gate itself. -/
theorem sound_start {qudits : List Qudit} (fits : gate.toGate.checkQudits qudits = .ok ()) :
    (start [⟨gate.toGate, qudits⟩]).Sound gate :=
  ⟨List.forall_mem_nil _, List.forall_mem_singleton.mpr (.controlled .whole),
    List.forall_mem_singleton.mpr fits⟩

/-- A turn replaces an operation by others that may come from the gate. -/
theorem sound_of_turn (plain : gate.IsPlain) (default : settings.synthesize = synthesize)
    (sound : state.Sound gate) (turn : Turn settings state next) : next.Sound gate := by
  cases turn with
  | finish final =>
      obtain ⟨head, rest⟩ := List.forall_mem_cons.mp sound.yields
      obtain ⟨fits, matched⟩ := List.forall_mem_cons.mp sound.matched
      refine ⟨List.forall_mem_append.mpr ⟨sound.rests, ?_⟩, rest, matched⟩
      rcases head.decompose_cases plain default fits with
        ⟨_, apart, -⟩ | ⟨-, rests⟩ | ⟨-, _, failed⟩
      · cases apart.symm.trans final
      · exact List.forall_mem_singleton.mpr rests
      · cases failed.symm.trans final
  | replace apart =>
      obtain ⟨head, rest⟩ := List.forall_mem_cons.mp sound.yields
      obtain ⟨fits, matched⟩ := List.forall_mem_cons.mp sound.matched
      have within := Gate.within_of_decompose default apart
      refine ⟨sound.rests, List.forall_mem_append.mpr ⟨?_, rest⟩,
        List.forall_mem_append.mpr ⟨fun part member => (within part member).matched, matched⟩⟩
      rcases head.decompose_cases plain default fits with
        ⟨_, decomposed, yields⟩ | ⟨final, -⟩ | ⟨-, _, failed⟩
      · cases decomposed.symm.trans apart
        exact yields
      · cases final.symm.trans apart
      · cases failed.symm.trans apart

/-- Every run keeps to operations that may come from the gate. -/
theorem sound_of_run (plain : gate.IsPlain) (default : settings.synthesize = synthesize)
    (sound : state.Sound gate) (run : Run settings state last) : last.Sound gate := by
  induction run with
  | refl => exact sound
  | tail _ turn ih => exact sound_of_turn plain default ih turn

end Worklist

variable {gate : ControlledGate R} {qudits : List Qudit}

/-- Full decomposition ends with what is left of the gate, or at a table of phases that is too
large. -/
theorem ControlledGate.IsPlain.decomposeAll_cases (plain : gate.IsPlain)
    (default : settings.synthesize = synthesize)
    (fits : gate.toGate.checkQudits qudits = .ok ()) :
    (∃ result, decomposeAll settings [⟨gate.toGate, qudits⟩] = .ok result ∧
        ∀ part ∈ result, gate.Rests part.gate) ∨
      60 ≤ gate.controlCount ∧
        ∃ fault, decomposeAll settings [⟨gate.toGate, qudits⟩] = .error (.fault fault) := by
  have wellFormed : (Worklist.start [⟨gate.toGate, qudits⟩]).WellFormed :=
    List.forall_mem_singleton.mpr plain.wellFormed
  have begins := Worklist.sound_start fits
  rcases run_of_decomposeAll default wellFormed with
    ⟨result, decomposed, run⟩ | ⟨reason, finished, operation, pending, failed, run, failure⟩
  · exact .inl ⟨result, decomposed, (Worklist.sound_of_run plain default begins run).rests⟩
  · have sound := Worklist.sound_of_run plain default begins run
    have yields := sound.yields operation List.mem_cons_self
    have matched := sound.matched operation List.mem_cons_self
    rcases yields.decompose_cases plain default matched with
      ⟨_, apart, -⟩ | ⟨final, -⟩ | ⟨large, fault, tabled⟩
    · cases apart.symm.trans failure
    · cases final.symm.trans failure
    · cases tabled.symm.trans failure
      exact .inr ⟨large, fault, failed⟩

/-- **What is left after full decomposition.** With the default synthesis, fully decomposing a
controlled gate around a gate that is no circuit, on qudits that match it, is never refused, and
it faults only under sixty controls or more. Each operation of the result applies an elementary
gate, or one under the controls of the gate that is irreducible: the applied gate has no matrix, or
some qudit is no qubit, or there are several targets, or one target under a sum. So if the gate is
a phase on qubits, or a matrix on a qubit under a product, all that is left is elementary. -/
theorem decomposition_leaves_irreducible_gates (reached : gate.toGate.Reachable)
    (library : ∀ shape body, gate.sub ≠ .composite shape body)
    (fits : gate.toGate.checkQudits qudits = .ok ())
    (settings : DecompositionSettings R (GateResult R))
    (default : settings.synthesize = synthesize) :
    (gate.controlCount < 60 →
      ∃ result, decomposeAll settings [⟨gate.toGate, qudits⟩] = .ok result) ∧
    (∀ reason, decomposeAll settings [⟨gate.toGate, qudits⟩] = .error reason →
      ∃ fault, reason = .fault fault) ∧
    ∀ result, decomposeAll settings [⟨gate.toGate, qudits⟩] = .ok result →
      (∀ part ∈ result, part.gate.isElementary = true ∨
        ∃ kept : ControlledGate R, part.gate = kept.toGate ∧ kept.Irreducible ∧
          kept.condition = gate.condition ∧ kept.shape = gate.shape) ∧
      ((∀ dimension ∈ gate.toGate.shape, dimension = 2) →
        (∃ matrix, gate.sub.unitary = .ok (some matrix)) →
        (gate.sub.arity = 0 ∨ gate.sub.arity = 1 ∧ gate.condition.isProduct = true) →
        ∀ part ∈ result, part.gate.isElementary = true) := by
  have plain := ControlledGate.isPlain_of_reachable reached library
  rcases plain.decomposeAll_cases default fits with
    ⟨result, decomposed, rests⟩ | ⟨large, fault, failed⟩
  · rw [decomposed]
    refine ⟨fun _ => ⟨result, rfl⟩, nofun, ?_⟩
    rintro _ ⟨⟩
    refine ⟨fun part member => (rests part member).cases, ?_⟩
    intro qubits present few part member
    exact (rests part member).isElementary (ControlledGate.not_irreducible qubits present few)
  · rw [failed]
    refine ⟨fun small => absurd large (Nat.not_le.mpr small), ?_, nofun⟩
    rintro _ ⟨⟩
    exact ⟨fault, rfl⟩

/-- Nothing but elementary gates is left of a rotation under two qubits at level one. -/
theorem decomposition_leaves_irreducible_gates_rotation :
    let rotation : Gate Float := .angle .rz (.value 0.5)
    let gate : ControlledGate Float := ⟨rotation, .product (.ones 2), [2, 2]⟩
    rotation.control { count := some 2 } = .ok gate ∧ gate.toGate.Reachable ∧
      (∀ shape body, gate.sub ≠ .composite shape body) ∧
      gate.toGate.checkQudits (Qudit.qubits 3) = .ok () ∧
      ∃ result, decomposeAll .standard [⟨gate.toGate, Qudit.qubits 3⟩] = .ok result ∧
        ∀ part ∈ result, part.gate.isElementary = true := by
  intro rotation gate
  have built : rotation.control { count := some 2 } = .ok gate := rfl
  have reached : gate.toGate.Reachable := .control (.primitive rfl) built
  have library : ∀ shape body, gate.sub ≠ .composite shape body := nofun
  have fits : gate.toGate.checkQudits (Qudit.qubits 3) = .ok () := rfl
  obtain ⟨ends, -, left⟩ :=
    decomposition_leaves_irreducible_gates reached library fits .standard rfl
  obtain ⟨result, decomposed⟩ := ends (by decide)
  obtain ⟨-, elementary⟩ := left result decomposed
  exact ⟨built, reached, library, fits, result, decomposed,
    elementary (by decide) ⟨_, rfl⟩ (.inr ⟨rfl, rfl⟩)⟩

end QuditCircuits
