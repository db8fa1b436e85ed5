import QuditCircuits.Decomposition.Full
import QuditCircuits.Proofs.Decomposition.Parts

/-!
# Rules lower the rank

Decomposition has no syntactic end: controlling the parts of a matrix gives controlled
rotations, and these may become a bare matrix again. The rank counts one level for a matrix
and two for controls, so that whatever a rule yields has a smaller rank than the gate it
replaces (`Gate.below_of_decompose`).
-/

namespace QuditCircuits

variable {R : Type} [Scalar R]

/-- An operation with a well-formed gate of rank below a bound. -/
structure Operation.Below (bound : Nat) (operation : Operation R) : Prop where
  rank : operation.gate.rank < bound
  wellFormed : operation.gate.WellFormed

theorem Operation.Below.mono {operation : Operation R} {bound larger : Nat}
    (below : operation.Below bound) (le : bound ≤ larger) : operation.Below larger :=
  ⟨Nat.lt_of_lt_of_le below.rank le, below.wellFormed⟩

omit [Scalar R] in
theorem Gate.gate_of_on {gate : Gate R} {qudits : List Qudit} {operation : Operation R}
    (applied : gate.on qudits = .ok operation) : operation.gate = gate := by
  obtain ⟨-, rfl⟩ := Operation.make_eq_ok_iff.mp (Operation.make_of_on applied)
  rfl

/-- An operation is below a bound if the gate that was applied is. -/
theorem Operation.below_of_on {gate : Gate R} {qudits : List Qudit} {operation : Operation R}
    {bound : Nat} (applied : gate.on qudits = .ok operation) (rank : gate.rank < bound)
    (wellFormed : gate.WellFormed) : operation.Below bound := by
  have same := Gate.gate_of_on applied
  exact ⟨same ▸ rank, same ▸ wellFormed⟩

/-! ## Elementary parts -/

omit [Scalar R] in
/-- Primitive gates have rank zero. -/
theorem Gate.rank_of_isPrimitive {gate : Gate R} (plain : gate.isPrimitive = true) :
    gate.rank = 0 := by
  cases gate with
  | matrix | controlled | composite => cases plain
  | x | cx | angle | diagonal | measurement | bitFlip | reset | idle | phaseFlip => rfl

omit [Scalar R] in
/-- Elementary gates are primitive. -/
theorem Gate.isPrimitive_of_isElementary {gate : Gate R} (elementary : gate.isElementary = true) :
    gate.isPrimitive = true := by
  cases gate with
  | x | cx | angle | diagonal => rfl
  | matrix | measurement | bitFlip | controlled | reset | idle | phaseFlip | composite =>
      cases elementary

theorem Operation.below_of_isElementary {operation : Operation R}
    (elementary : operation.gate.isElementary = true) : operation.Below 1 := by
  have plain := Gate.isPrimitive_of_isElementary elementary
  exact ⟨Nat.lt_succ_of_le (Gate.rank_of_isPrimitive plain).le,
    Gate.wellFormed_of_isPrimitive plain⟩

/-- A simple gate is at most an explicit matrix, which can be taken apart once. -/
theorem Operation.below_of_isSimple {operation : Operation R} (simple : operation.gate.IsSimple) :
    operation.Below 2 := by
  rcases simple with elementary | ⟨entries, accepted⟩
  · exact (below_of_isElementary elementary).mono (Nat.le_succ 1)
  · have same := Gate.eq_of_ofMatrix accepted
    exact ⟨same ▸ Nat.one_lt_two, Gate.wellFormed_of_ofMatrix accepted⟩

/-! ## Parts of gates -/

/-- The gates of a circuit are well-formed and of no larger rank. -/
theorem Circuit.below_of_place {line : List Qudit} {circuit : Circuit R}
    {operations : List (Operation R)} (wellFormed : circuit.WellFormed)
    (placed : circuit.place line = .ok operations) :
    ∀ operation ∈ operations, operation.Below (circuit.rank + 1) := by
  match circuit with
  | .done =>
      cases placed
      exact List.forall_mem_nil _
  | .step gate positions rest =>
      obtain ⟨selected, _, placed⟩ := bind_eq_ok_iff.mp placed
      obtain ⟨operation, applied, placed⟩ := bind_eq_ok_iff.mp placed
      obtain ⟨others, othersPlaced, placed⟩ := bind_eq_ok_iff.mp placed
      cases placed
      refine List.forall_mem_cons.mpr ⟨?_, ?_⟩
      · exact Operation.below_of_on applied
          (Nat.lt_succ_of_le (Nat.le_max_left gate.rank rest.rank)) wellFormed.1
      · intro other member
        exact (rest.below_of_place wellFormed.2 othersPlaced other member).mono
          (Nat.succ_le_succ (Nat.le_max_right gate.rank rest.rank))

omit [Scalar R] in
/-- Controls raise the rank of a gate by two at most. -/
theorem ControlledGate.rank_flatten_le {sub : Gate R} {condition : Condition} {shape : List Nat} :
    (flatten sub condition shape).toGate.rank ≤ sub.rank + 2 := by
  cases controlled : sub.isControlled with
  | false =>
      rw [Gate.flatten_of_not_isControlled controlled]
      exact Nat.le_refl _
  | true =>
      obtain ⟨inner, innerCondition, innerShape, rfl⟩ := Gate.exists_of_isControlled controlled
      exact Nat.le_add_right _ 2

/-- Controls raise the rank by at most two. -/
theorem Operation.below_of_controlledBy {operation wrapped : Operation R}
    {controls : List Qudit} {condition : Condition} {bound : Nat} (below : operation.Below bound)
    (success : operation.controlledBy controls (some condition) = .ok wrapped) :
    wrapped.Below (bound + 2) := by
  refine ⟨?_, wellFormed_of_controlledBy below.wellFormed success⟩
  by_cases none : controls = []
  · subst none
    cases success
    exact Nat.lt_add_right 2 below.rank
  · obtain ⟨_, rfl⟩ := eq_of_controlledBy none success
    exact Nat.lt_of_le_of_lt ControlledGate.rank_flatten_le (Nat.add_lt_add_right below.rank 2)

/-- The controlled sign change is its own special form. -/
theorem ControlledGate.same_of_control_phaseFlip {gate built : ControlledGate R}
    {count : Option Nat} (wellFormed : gate.toGate.WellFormed) (sign : gate.sub = .phaseFlip)
    (success : Gate.phaseFlip.control
      { count, condition := some gate.condition, shape := some gate.shape } = .ok built) :
    built.toGate.same gate.toGate = true := by
  obtain ⟨_, condition, shape, implied, impliedShape, _, _, _, _, rfl⟩ :=
    Gate.control_eq_ok_iff.mp success
  obtain ⟨_, _, _, _, _, simplified⟩ := wellFormed
  cases implied
  cases impliedShape
  obtain ⟨sub, condition, shape⟩ := gate
  subst sign
  dsimp only at simplified ⊢
  rw [simplified]
  simp [flatten, toGate, Gate.same]

/-- The only special form other than the gate itself is the exchange under one control. -/
theorem ControlledGate.gate_of_nativeOperation? {gate : ControlledGate R} {qudits : List Qudit}
    {operation : Operation R} (wellFormed : gate.toGate.WellFormed)
    (native : gate.nativeOperation? qudits = .ok (some operation)) : operation.gate = .cx := by
  obtain ⟨special, found, different, applied⟩ := exists_of_nativeOperation? native
  rw [Gate.gate_of_on applied]
  rcases Gate.native_cases found with rfl | ⟨sign, controlled, success, rfl⟩
  · rfl
  · exact absurd (same_of_control_phaseFlip wellFormed sign success) different

/-- Only exchanges and sign changes have special forms. -/
theorem ControlledGate.nativeOperation?_of_ne {gate : ControlledGate R} {qudits : List Qudit}
    (sign : gate.sub ≠ .phaseFlip) (exchange : gate.sub ≠ .x) :
    gate.nativeOperation? qudits = .ok none := by
  have plain : gate.sub.native gate.controlCount gate.condition gate.shape = .ok none := by
    unfold Gate.native
    split
    case h_1 same => exact absurd same exchange
    case h_2 same => exact absurd same sign
    case h_3 => rfl
  rw [nativeOperation?, plain]
  rfl

/-- **Rules lower the rank.** What a rule replaces a well-formed gate by is well-formed and of
smaller rank. -/
theorem Gate.below_of_decompose {settings : DecompositionSettings R (GateResult R)}
    (default : settings.synthesize = synthesize) {gate : Gate R} {qudits : List Qudit}
    {parts : List (Operation R)} (wellFormed : gate.WellFormed)
    (decomposed : gate.decompose settings qudits = .ok (some parts)) :
    ∀ part ∈ parts, part.Below gate.rank := by
  match gate with
  | .matrix entries shape =>
      rw [decompose] at decomposed
      split at decomposed
      case isTrue =>
        obtain ⟨_, turned, equal⟩ := bind_eq_ok_iff.mp decomposed
        cases equal
        intro part member
        exact Operation.below_of_isElementary
          (EulerAngles.applies_of_operations turned part member).kind
      case isFalse => cases decomposed
  | .composite shape body =>
      rw [decompose] at decomposed
      obtain ⟨_, placed, equal⟩ := bind_eq_ok_iff.mp decomposed
      cases equal
      exact body.below_of_place wellFormed placed
  | .controlled sub condition shape =>
      let gate : ControlledGate R := ⟨sub, condition, shape⟩
      have whole : gate.toGate.WellFormed := wellFormed
      have extracting : settings.extractingGlobalPhases.synthesize = synthesize := default
      rcases gate.decompose_cases decomposed with ⟨operation, native, rfl⟩ |
        ⟨applied, apart, wrapped⟩ | ⟨form, elementary, decomposed⟩
      · have exchange := ControlledGate.gate_of_nativeOperation? whole native
        refine List.forall_mem_singleton.mpr ⟨?_, ?_⟩
        · rw [exchange]
          exact Nat.succ_pos (sub.rank + 1)
        · rw [exchange]
          trivial
      · intro part member
        obtain ⟨subPart, inside, success⟩ := exists_of_mem_mapM wrapped member
        exact Operation.below_of_controlledBy
          (below_of_decompose extracting wellFormed.1 apart subPart inside) success
      · -- Where all controls drop out, a bare matrix is left, which is still of rank one.
        intro part member
        have applies := ControlledGate.applies_of_form default elementary decomposed part member
        exact (Operation.below_of_isSimple applies.kind).mono (Nat.le_add_left 2 sub.rank)
  | .x | .cx | .angle _ _ | .diagonal _ | .measurement _ _ | .bitFlip _ | .reset | .idle _
  | .phaseFlip => cases decomposed

end QuditCircuits
