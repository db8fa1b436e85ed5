import QuditCircuits.Decomposition.Full
import QuditCircuits.Proofs.Decomposition.Parts

/-!
# Decomposition stays within its register

Decomposition hands qudits around: controls are split off, flipped, left out or lent as
workspace, and the parts of a gate are placed on positions of its qudits. Each part still
matches the shape of its gate and acts on qudits of the operation it comes from, for one level
of decomposition (`Gate.within_of_decompose`) and for all of them (`within_of_decomposeAll`).
Nothing is asked of the gate itself.
-/

namespace QuditCircuits

variable {R : Type}

/-- A mapping into results relates its items to what they are mapped to. -/
theorem forall₂_of_mapM {ε α β : Type} {transform : α → Except ε β} {items : List α}
    {results : List β} (mapped : items.mapM transform = .ok results) :
    List.Forall₂ (fun item result => transform item = .ok result) items results := by
  induction items generalizing results with
  | nil =>
      cases mapped
      exact .nil
  | cons item items ih =>
      simp only [List.mapM_cons, bind_eq_ok_iff] at mapped
      obtain ⟨_, first, _, others, equal⟩ := mapped
      cases equal
      exact .cons first (ih others)

/-- The gates of a circuit are placed on qudits of its line. -/
theorem Circuit.within_of_place {line : List Qudit} {circuit : Circuit R}
    {operations : List (Operation R)} (placed : circuit.place line = .ok operations) :
    ∀ operation ∈ operations, operation.Within line := by
  match circuit with
  | .done =>
      cases placed
      exact List.forall_mem_nil _
  | .step gate positions rest =>
      obtain ⟨selected, found, placed⟩ := bind_eq_ok_iff.mp placed
      obtain ⟨operation, applied, placed⟩ := bind_eq_ok_iff.mp placed
      obtain ⟨others, othersPlaced, placed⟩ := bind_eq_ok_iff.mp placed
      cases placed
      have inLine := Machine.subset_of_select (liftFault_eq_ok_iff.mp found)
      exact List.forall_mem_cons.mpr ⟨(Operation.within_of_on applied).mono inLine,
        rest.within_of_place othersPlaced⟩

variable [Scalar R]

/-- Controls are put in front of the qudits of an operation. -/
theorem Operation.within_of_controlledBy {operation wrapped : Operation R}
    {controls targets : List Qudit} {condition : Option Condition}
    (within : operation.Within targets)
    (success : operation.controlledBy controls condition = .ok wrapped) :
    wrapped.Within (controls ++ targets) := by
  unfold controlledBy at success
  split at success
  case isTrue =>
    cases success
    exact within.mono (List.subset_append_right _ _)
  case isFalse =>
    obtain ⟨gate, _, made⟩ := bind_eq_ok_iff.mp success
    refine (within_of_make made).mono (List.append_subset.mpr ⟨?_, ?_⟩)
    · exact List.subset_append_left _ _
    · exact List.Subset.trans within.inside (List.subset_append_right _ _)

/-- **Parts stay within the register.** The parts that a gate on qudits is decomposed into match
their qudits, which are among the qudits of the gate. -/
theorem Gate.within_of_decompose {settings : DecompositionSettings R (GateResult R)}
    (default : settings.synthesize = synthesize) {gate : Gate R} {qudits : List Qudit}
    {parts : List (Operation R)} (decomposed : gate.decompose settings qudits = .ok (some parts)) :
    ∀ part ∈ parts, part.Within qudits := by
  match gate with
  | .matrix entries shape =>
      rw [decompose] at decomposed
      split at decomposed
      case isTrue =>
        obtain ⟨_, turned, equal⟩ := bind_eq_ok_iff.mp decomposed
        cases equal
        exact fun part member => (EulerAngles.applies_of_operations turned part member).toWithin
      case isFalse => cases decomposed
  | .composite shape body =>
      rw [decompose] at decomposed
      obtain ⟨_, placed, equal⟩ := bind_eq_ok_iff.mp decomposed
      cases equal
      exact body.within_of_place placed
  | .controlled sub condition shape =>
      let gate : ControlledGate R := ⟨sub, condition, shape⟩
      have extracting : settings.extractingGlobalPhases.synthesize = synthesize := default
      rcases gate.decompose_cases decomposed with ⟨operation, native, rfl⟩ |
        ⟨applied, apart, wrapped⟩ | ⟨form, elementary, decomposed⟩
      · obtain ⟨_, _, _, on⟩ := ControlledGate.exists_of_nativeOperation? native
        exact List.forall_mem_singleton.mpr (Operation.within_of_on on)
      · intro part member
        obtain ⟨subPart, inside, success⟩ := exists_of_mem_mapM wrapped member
        have onTargets := within_of_decompose extracting apart subPart inside
        have within := Operation.within_of_controlledBy onTargets success
        rwa [List.take_append_drop] at within
      · exact fun part member =>
          (ControlledGate.applies_of_form default elementary decomposed part member).toWithin
  | .x | .cx | .angle _ _ | .diagonal _ | .measurement _ _ | .bitFlip _ | .reset | .idle _
  | .phaseFlip => cases decomposed

/-- By induction on the depth: what a part is taken apart into lies within the part. -/
theorem Operation.within_of_decomposeWithin {settings : DecompositionSettings R (GateResult R)}
    (default : settings.synthesize = synthesize) {depth : Nat} {operation : Operation R}
    {result : List (Operation R)}
    (matched : operation.gate.checkQudits operation.qudits = .ok ())
    (decomposed : operation.decomposeWithin settings depth = .ok result) :
    ∀ part ∈ result, part.Within operation.qudits := by
  have whole : ∀ part ∈ [operation], part.Within operation.qudits :=
    List.forall_mem_singleton.mpr ⟨matched, List.Subset.refl _⟩
  induction depth generalizing operation result with
  | zero =>
      cases decomposed
      exact whole
  | succ depth ih =>
      rw [decomposeWithin] at decomposed
      obtain ⟨parts?, apart, decomposed⟩ := bind_eq_ok_iff.mp decomposed
      cases parts? with
      | none =>
          cases decomposed
          exact whole
      | some parts =>
          obtain ⟨results, expanded, equal⟩ := bind_eq_ok_iff.mp decomposed
          cases equal
          intro piece member
          obtain ⟨pieces, listed, inside⟩ := List.mem_flatten.mp member
          obtain ⟨part, partMember, partDecomposed⟩ := exists_of_mem_mapM expanded listed
          have within := Gate.within_of_decompose default apart part partMember
          exact (ih within.matched partDecomposed
            (List.forall_mem_singleton.mpr ⟨within.matched, List.Subset.refl _⟩) piece
              inside).mono within.inside

/-- **Full decomposition stays within the registers.** The result consists of pieces, one for
every operation in order, and each piece lies within the operation it stands for. -/
theorem within_of_decomposeAll {settings : DecompositionSettings R (GateResult R)}
    (default : settings.synthesize = synthesize) {operations result : List (Operation R)}
    (matched : ∀ operation ∈ operations, operation.gate.checkQudits operation.qudits = .ok ())
    (decomposed : decomposeAll settings operations = .ok result) :
    ∃ pieces, result = pieces.flatten ∧
      List.Forall₂ (fun operation piece => ∀ part ∈ piece, part.Within operation.qudits)
        operations pieces := by
  obtain ⟨pieces, expanded, equal⟩ := bind_eq_ok_iff.mp decomposed
  refine ⟨pieces, (Except.ok.inj equal).symm, ?_⟩
  have known := (List.forall₂_and_left _ _).mpr ⟨matched, forall₂_of_mapM expanded⟩
  apply known.imp
  rintro operation piece ⟨fits, success⟩
  exact Operation.within_of_decomposeWithin default fits success

end QuditCircuits
