import QuditCircuits.Proofs.Gate.Sizes

/-!
# Gates without faults

Whether a gate has a matrix is found out without a fault if the matrices of the gate, and of
the gates in the circuits inside it, can be stored (`Gate.exists_unitary`). Circuits have to be
placed within their own qudits (`Gate.CircuitsFit`), which says nothing about a gate without
circuits.
-/

namespace QuditCircuits

open DenseMatrix Register

variable {R : Type}

mutual

/-- The circuits inside a gate are placed within their own qudits, and the matrices of their
gates can be stored. -/
def Gate.CircuitsFit : Gate R → Prop
  | .controlled sub _ _ => sub.CircuitsFit
  | .composite shape body => body.FitsLine shape.length
  | .x | .cx | .angle _ _ | .diagonal _ | .matrix _ _ | .measurement _ _ | .bitFlip _ | .reset
  | .idle _ | .phaseFlip => True

/-- A circuit is placed within the first qudits of a line, and the matrices of its gates can be
stored. -/
def Circuit.FitsLine (count : Nat) : Circuit R → Prop
  | .done => True
  | .step gate positions rest =>
      (∀ position ∈ positions, position < count) ∧ Storable amplitudeWidth gate.shape 1 ∧
        gate.CircuitsFit ∧ rest.FitsLine count

end

/-- A gate that is refused qudits is refused for a reason, not for a fault. -/
theorem Gate.on_ne_fault {gate : Gate R} {qudits : List Qudit} {fault : Fault} :
    gate.on qudits ≠ .error (.fault fault) := by
  have checked (position : Nat) (shape : List Nat) (others : List Qudit) :
      gate.checkDimensions position shape others ≠ .error (.fault fault) := by
    induction shape generalizing position others with
    | nil => simp [checkDimensions]
    | cons expected shape ih =>
        cases others with
        | nil => simp [checkDimensions]
        | cons qudit others =>
            unfold checkDimensions
            split
            case isTrue => exact ih _ _
            case isFalse => simp
  intro refused
  unfold on at refused
  split at refused
  case isTrue => cases refused
  case isFalse =>
    rcases bind_eq_error_iff.mp refused with unmatched | ⟨_, _, made⟩
    · unfold checkQudits at unmatched
      split at unmatched
      case isTrue => exact checked _ _ _ unmatched
      case isFalse => cases unmatched
    · cases made

/-- A circuit whose qudits are there is not refused for a fault. -/
theorem Circuit.place_ne_fault {line : List Qudit} {circuit : Circuit R} {fault : Fault}
    (fits : circuit.FitsLine line.length) : circuit.place line ≠ .error (.fault fault) := by
  intro refused
  match circuit with
  | .done => cases refused
  | .step gate positions rest =>
      obtain ⟨inside, _, _, restFits⟩ := fits
      have selected := Machine.select_eq_ok (.qubit 0) inside
      rw [Circuit.place, selected] at refused
      rcases bind_eq_error_iff.mp refused with missing | ⟨_, ⟨⟩, refused⟩
      · cases missing
      · rcases bind_eq_error_iff.mp refused with refused | ⟨_, _, refused⟩
        · exact Gate.on_ne_fault refused
        · rcases bind_eq_error_iff.mp refused with refused | ⟨_, _, refused⟩
          · exact rest.place_ne_fault restFits refused
          · cases refused

variable [Scalar R]

mutual

/-- **No faults.** A gate whose matrix can be stored has a matrix or has none. By induction on
the gate: under controls the matrix is as large as the block matrix allows, and a circuit is a
run of stages that do not fault. -/
theorem Gate.exists_unitary {gate : Gate R} (wellFormed : gate.WellFormed)
    (positive : ∀ dimension ∈ gate.shape, 0 < dimension)
    (storable : Storable amplitudeWidth gate.shape 1) (fits : gate.CircuitsFit) :
    ∃ matrix?, gate.unitary = .ok matrix? := by
  match gate with
  | .x | .cx | .phaseFlip | .angle _ _ | .matrix _ _ | .measurement _ _ | .bitFlip _ | .reset =>
      rw [Gate.unitary]
      exact ⟨_, rfl⟩
  | .diagonal table =>
      have size : (List.replicate table.qubits 2).prod = table.angles.size := by
        rw [table.size_eq, List.prod_replicate_nat]
        rfl
      have entries := storable.entries
      rw [Gate.shape, Nat.mul_one, size, ← Machine.reserve_eq_ok_iff] at entries
      rw [Gate.unitary, entries]
      exact ⟨_, rfl⟩
  | .idle shape =>
      have entries := storable.entries
      rw [Gate.shape, Nat.mul_one, ← Machine.reserve_eq_ok_iff] at entries
      have counted : Machine.product shape = .ok shape.prod :=
        Machine.product_eq_ok positive storable.blocks
      have stored : identity? shape.prod amplitudeWidth =
          .ok (identity shape.prod : Unitary R) := by
        rw [identity?, entries]
        rfl
      rw [Gate.unitary, counted]
      change ∃ matrix?, (identity? shape.prod amplitudeWidth >>= _) = _
      rw [stored]
      exact ⟨_, rfl⟩
  | .controlled sub condition shape =>
      obtain ⟨subWellFormed, _, _, allPositive, valid, _⟩ := wellFormed
      obtain ⟨shapePositive, subPositive⟩ := List.forall_mem_append.mp allPositive
      have subStorable := storable.inner shapePositive
      obtain ⟨matrix?, present⟩ := sub.exists_unitary subWellFormed subPositive subStorable fits
      rw [Gate.unitary_controlled allPositive, present]
      cases matrix? with
      | none => exact ⟨none, rfl⟩
      | some matrix =>
          obtain ⟨rows, cols⟩ := Gate.size_of_unitary subWellFormed present
          have blocks := storable.outer subPositive
          rw [Nat.mul_one, ← rows] at blocks
          have embedded := controlledEmbedding_eq_ok shapePositive valid (cols.trans rows.symm)
            blocks
          change ∃ matrix?, some <$> controlledEmbedding amplitudeWidth shape condition matrix =
            .ok matrix?
          rw [embedded]
          exact ⟨_, rfl⟩
  | .composite shape body =>
      obtain ⟨line, built⟩ := Qudit.line_eq_ok positive
      have dimensions : Qudit.dimensions line = shape := Qudit.dimensions_lineFrom built
      have length : line.length = shape.length := by
        rw [← dimensions, Qudit.dimensions, List.length_map]
      have lineStorable : Storable amplitudeWidth (Qudit.dimensions line) 1 :=
        dimensions.symm ▸ storable
      cases outcome : (Gate.composite shape body).unitary with
      | ok matrix? => exact ⟨matrix?, rfl⟩
      | error fault =>
          exfalso
          rw [Gate.unitary] at outcome
          rcases bind_eq_error_iff.mp outcome with unbuilt | ⟨other, again, outcome⟩
          · cases built.symm.trans unbuilt
          · cases built.symm.trans again
            split at outcome
            case h_1 reason refused =>
              exact Circuit.place_ne_fault (length ▸ fits) refused
            case h_2 => cases outcome
            case h_3 operations placed =>
              have stages := body.stages_of_place wellFormed fits placed
              rw [composeStages_eq_applyStages lineStorable] at outcome
              obtain ⟨stage, member, same⟩ := fault_of_applyStages lineStorable
                (fun stage member => (stages stage member).1) (by rfl) outcome
              obtain ⟨matrix?, present⟩ := (stages stage member).2
              cases present.symm.trans same

/-- The stages of a circuit that fits its line have matrices of the size of their qudits, if
any, and do not fault. -/
theorem Circuit.stages_of_place {circuit : Circuit R} {line : List Qudit} {count : Nat}
    {operations : List (Operation R)} (wellFormed : circuit.WellFormed)
    (fits : circuit.FitsLine count) (placed : circuit.place line = .ok operations) :
    ∀ stage ∈ stagesOf circuit.unitaries operations,
      Stage.Fills stage ∧ ∃ matrix?, stage.1 = .ok matrix? := by
  match circuit with
  | .done =>
      cases placed
      exact List.forall_mem_nil _
  | .step gate positions rest =>
      obtain ⟨gateWellFormed, restWellFormed⟩ := wellFormed
      obtain ⟨_, storable, gateFits, restFits⟩ := fits
      obtain ⟨qudits, _, placed⟩ := bind_eq_ok_iff.mp placed
      obtain ⟨operation, applied, placed⟩ := bind_eq_ok_iff.mp placed
      obtain ⟨others, othersPlaced, equal⟩ := bind_eq_ok_iff.mp placed
      cases equal
      obtain ⟨matched, rfl⟩ := Operation.make_eq_ok_iff.mp (Operation.make_of_on applied)
      have positive : ∀ dimension ∈ gate.shape, 0 < dimension :=
        matched ▸ Qudit.pos_of_mem_dimensions
      refine List.forall_mem_cons.mpr ⟨⟨?_, ?_⟩, ?_⟩
      · exact Gate.fills gateWellFormed (Gate.checkQudits_eq_ok_iff.mpr matched)
      · exact gate.exists_unitary gateWellFormed positive storable gateFits
      · exact rest.stages_of_place restWellFormed restFits othersPlaced

end

end QuditCircuits
