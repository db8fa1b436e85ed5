import QuditCircuits.Proofs.Gate.Faultless
import QuditCircuits.Proofs.Gate.Resolution

/-!
# What gates can do

Whether a gate has a matrix or a mixture is asked of the gate under the controls, while the
matrices themselves are built up with the controls. Both give the same answer for every gate whose
matrix can be stored (`Gate.hasUnitary_eq`, `Gate.hasMixture_eq`). A gate depends on symbols if
it has parameter names, and then it has no matrix. So the question that building asks of a gate
admits exactly the gates that make a mixture under controls, and those with symbols.
-/

namespace QuditCircuits

open DenseMatrix Register

variable {R : Type}

/-! ## Symbols -/

mutual

/-- A gate depends on parameters if it has symbols. -/
theorem Gate.isParameterized_iff_symbols {gate : Gate R} :
    gate.isParameterized = true ↔ gate.symbols ≠ [] := by
  match gate with
  | .angle _ (.value _) | .angle _ (.symbol _) =>
      simp [Gate.isParameterized, Gate.symbols, Parameter.isSymbol, Parameter.names,
        Parameter.symbol?]
  | .controlled sub _ _ => exact sub.isParameterized_iff_symbols
  | .composite _ body => exact body.isParameterized_iff_symbols
  | .x | .cx | .diagonal _ | .matrix _ _ | .measurement _ _ | .bitFlip _ | .reset | .idle _
  | .phaseFlip => simp [Gate.isParameterized, Gate.symbols]

theorem Circuit.isParameterized_iff_symbols {circuit : Circuit R} :
    circuit.isParameterized = true ↔ circuit.symbols ≠ [] := by
  match circuit with
  | .done => simp [Circuit.isParameterized, Circuit.symbols]
  | .step gate _ rest =>
      rw [Circuit.isParameterized, Circuit.symbols, Bool.or_eq_true,
        gate.isParameterized_iff_symbols, rest.isParameterized_iff_symbols, ne_eq, ne_eq, ne_eq,
        List.append_eq_nil_iff, not_and_or]

end

/-- A gate depends on symbols if it has parameter names. -/
theorem Gate.isParameterized_iff_parameterNames {gate : Gate R} :
    gate.isParameterized = true ↔ gate.parameterNames.toList ≠ [] := by
  have same (name : String) : name ∈ gate.parameterNames.toList ↔ name ∈ gate.symbols :=
    Ascending.mem_ofList
  rw [isParameterized_iff_symbols, ne_eq, ne_eq, List.eq_nil_iff_forall_not_mem,
    List.eq_nil_iff_forall_not_mem]
  simp only [same]

variable [Scalar R]

mutual

/-- A gate with a matrix has no symbols. -/
theorem Gate.not_isParameterized_of_unitary {gate : Gate R} {matrix : Unitary R}
    (wellFormed : gate.WellFormed) (present : gate.unitary = .ok (some matrix)) :
    gate.isParameterized = false := by
  match gate with
  | .angle _ (.value _) => rfl
  | .angle _ (.symbol _) =>
      rw [Gate.unitary] at present
      cases present
  | .controlled sub _ _ =>
      obtain ⟨subWellFormed, _, _, positive, _, _⟩ := wellFormed
      rw [Gate.unitary_controlled positive] at present
      obtain ⟨sub?, subPresent, present⟩ := bind_eq_ok_iff.mp present
      cases sub? with
      | none => cases present
      | some _ => exact sub.not_isParameterized_of_unitary subWellFormed subPresent
  | .composite _ body =>
      exact body.not_isParameterized_of_unitaries wellFormed
        (Gate.exists_unitary_of_composite present)
  | .x | .cx | .diagonal _ | .matrix _ _ | .measurement _ _ | .bitFlip _ | .reset | .idle _
  | .phaseFlip => rfl

/-- A circuit whose gates all have a matrix has no symbols. -/
theorem Circuit.not_isParameterized_of_unitaries {circuit : Circuit R}
    (wellFormed : circuit.WellFormed)
    (present : ∀ matrix ∈ circuit.unitaries, ∃ entries, matrix = .ok (some entries)) :
    circuit.isParameterized = false := by
  match circuit with
  | .done => rfl
  | .step gate _ rest =>
      obtain ⟨⟨_, gatePresent⟩, restPresent⟩ := List.forall_mem_cons.mp present
      rw [Circuit.isParameterized, gate.not_isParameterized_of_unitary wellFormed.1 gatePresent,
        rest.not_isParameterized_of_unitaries wellFormed.2 restPresent]
      rfl

end

/-! ## Matrices and mixtures under controls -/

namespace Gate

/-- A step on a value that may be absent only changes this value, if it succeeds with it. -/
theorem eq_map_of_mapM {α β : Type} {source : Except Fault (Option α)}
    {whole : Except Fault (Option β)} {step : α → Except Fault β} {transform : α → β}
    (taken : whole = source >>= Option.mapM step)
    (succeeds : ∀ value, source = .ok (some value) → whole = .ok (some (transform value))) :
    whole = Option.map transform <$> source := by
  rcases source with fault | _ | value
  · exact taken
  · exact taken
  · exact succeeds value rfl

section Controlled

variable {sub : Gate R} {condition : Condition} {shape : List Nat}
  (wellFormed : (Gate.controlled sub condition shape).WellFormed)
  (storable : Storable amplitudeWidth (shape ++ sub.shape) 1)
include wellFormed storable

/-- If the whole gate can be stored, the blocks of its matrix can. -/
theorem storable_blocks : Storable amplitudeWidth shape sub.shape.prod := by
  obtain ⟨_, _, _, positive, _⟩ := wellFormed
  simpa using storable.outer (List.forall_mem_append.mp positive).2

/-- The matrix of a controlled gate that can be stored, if any, is the block matrix of the
matrix of the gate that it applies. -/
theorem unitary_controlled_eq_map : (Gate.controlled sub condition shape).unitary =
    Option.map (Register.controlled shape condition) <$> sub.unitary := by
  have built : (⟨sub, condition, shape⟩ : ControlledGate R).toGate.WellFormed := wellFormed
  have blocks := storable_blocks built storable
  obtain ⟨_, _, _, positive, _⟩ := wellFormed
  exact eq_map_of_mapM (unitary_controlled positive) fun _ present =>
    ControlledGate.unitary_eq_controlled built blocks present

/-- The mixture of a controlled gate that can be stored, if any, has the block matrices of the
parts of the mixture of the gate that it applies. -/
theorem mixture_controlled_eq_map : (Gate.controlled sub condition shape).mixture =
    Option.map (List.map fun part => (part.1, Register.controlled shape condition part.2)) <$>
      sub.mixture := by
  have built : (⟨sub, condition, shape⟩ : ControlledGate R).toGate.WellFormed := wellFormed
  have blocks := storable_blocks built storable
  obtain ⟨_, _, _, positive, _⟩ := wellFormed
  exact eq_map_of_mapM (mixture_controlled positive) fun _ present =>
    ControlledGate.mixture_eq_controlled built blocks present

end Controlled

/-- What is made of a value that may be absent is present where the value is. -/
theorem isSome_map {α β : Type} {transform : α → β} {result : Except Fault (Option α)} :
    Option.isSome <$> (Option.map transform <$> result) = Option.isSome <$> result := by
  cases result with
  | error fault => rfl
  | ok value? => cases value? <;> rfl

variable {gate : Gate R}

/-- A gate without controls has a matrix if one is found for it. -/
theorem hasUnitary_of_not_isControlled (uncontrolled : gate.isControlled = false) :
    gate.hasUnitary = Option.isSome <$> gate.unitary := by
  cases gate
  case controlled => cases uncontrolled
  all_goals rfl

/-- A gate that is neither a channel nor controlled is the mixture of its matrix alone, if any. -/
theorem mixture_eq_map_unitary (uncontrolled : gate.isControlled = false)
    (pure : ∀ probability, gate ≠ .bitFlip probability) :
    gate.mixture = Option.map (fun matrix => [(1, matrix)]) <$> gate.unitary := by
  rw [mixture_eq_unitary uncontrolled pure]
  cases gate.unitary <;> rfl

theorem hasMixture_of_not_isControlled (uncontrolled : gate.isControlled = false) :
    gate.hasMixture = Option.isSome <$> gate.mixture := by
  by_cases channel : ∃ probability, gate = .bitFlip probability
  · obtain ⟨probability, rfl⟩ := channel
    rfl
  · have pure : ∀ probability, gate ≠ .bitFlip probability := not_exists.mp channel
    have same : gate.hasMixture = gate.hasUnitary := by
      cases gate
      case controlled => cases uncontrolled
      case bitFlip probability => exact absurd rfl (pure probability)
      all_goals rfl
    rw [same, hasUnitary_of_not_isControlled uncontrolled,
      mixture_eq_map_unitary uncontrolled pure, isSome_map]

variable (wellFormed : gate.WellFormed) (storable : Storable amplitudeWidth gate.shape 1)
include wellFormed storable

/-- Controls change nothing about whether a gate has a matrix. -/
theorem hasUnitary_eq : gate.hasUnitary = Option.isSome <$> gate.unitary := by
  cases controlled : gate.isControlled with
  | false => exact hasUnitary_of_not_isControlled controlled
  | true =>
      obtain ⟨sub, condition, shape, rfl⟩ := exists_of_isControlled controlled
      rw [hasUnitary, hasUnitary_of_not_isControlled wellFormed.2.1,
        unitary_controlled_eq_map wellFormed storable, isSome_map]

/-- Controls change nothing about whether a gate is a mixture. -/
theorem hasMixture_eq : gate.hasMixture = Option.isSome <$> gate.mixture := by
  cases controlled : gate.isControlled with
  | false => exact hasMixture_of_not_isControlled controlled
  | true =>
      obtain ⟨sub, condition, shape, rfl⟩ := exists_of_isControlled controlled
      rw [hasMixture, hasMixture_of_not_isControlled wellFormed.2.1,
        mixture_controlled_eq_map wellFormed storable, isSome_map]

/-- A gate with a matrix is the mixture of this matrix alone. -/
theorem mixture_of_unitary {matrix : Unitary R} (present : gate.unitary = .ok (some matrix)) :
    gate.mixture = .ok (some [(1, matrix)]) := by
  have alone {plain : Gate R} (uncontrolled : plain.isControlled = false) {entries : Unitary R}
      (plainPresent : plain.unitary = .ok (some entries)) :
      plain.mixture = .ok (some [(1, entries)]) := by
    rw [mixture_eq_map_unitary uncontrolled, plainPresent]
    · rfl
    · rintro probability rfl
      rw [unitary] at plainPresent
      cases plainPresent
  cases controlled : gate.isControlled with
  | false => exact alone controlled present
  | true =>
      obtain ⟨sub, condition, shape, rfl⟩ := exists_of_isControlled controlled
      rw [unitary_controlled_eq_map wellFormed storable] at present
      rw [mixture_controlled_eq_map wellFormed storable]
      match subPresent : sub.unitary with
      | .error fault =>
          rw [subPresent] at present
          cases present
      | .ok none =>
          rw [subPresent] at present
          cases present
      | .ok (some entries) =>
          rw [subPresent] at present
          cases present
          rw [alone wellFormed.2.1 subPresent]
          rfl

/-- **No faults in mixtures.** -/
theorem exists_mixture (positive : ∀ dimension ∈ gate.shape, 0 < dimension)
    (fits : gate.CircuitsFit) : ∃ parts?, gate.mixture = .ok parts? := by
  have alone {plain : Gate R} (uncontrolled : plain.isControlled = false)
      (faultless : ∃ matrix?, plain.unitary = .ok matrix?) :
      ∃ parts?, plain.mixture = .ok parts? := by
    by_cases channel : ∃ probability, plain = .bitFlip probability
    · obtain ⟨probability, rfl⟩ := channel
      exact ⟨_, rfl⟩
    · obtain ⟨matrix?, present⟩ := faultless
      rw [mixture_eq_map_unitary uncontrolled (not_exists.mp channel), present]
      exact ⟨_, rfl⟩
  cases controlled : gate.isControlled with
  | false => exact alone controlled (exists_unitary wellFormed positive storable fits)
  | true =>
      obtain ⟨sub, condition, shape, rfl⟩ := exists_of_isControlled controlled
      obtain ⟨subWellFormed, single, _, allPositive, _, _⟩ := id wellFormed
      obtain ⟨shapePositive, subPositive⟩ := List.forall_mem_append.mp allPositive
      obtain ⟨parts?, present⟩ := alone single
        (exists_unitary subWellFormed subPositive (storable.inner shapePositive) fits)
      rw [mixture_controlled_eq_map wellFormed storable, present]
      exact ⟨_, rfl⟩

end Gate

omit [Scalar R] in
/-- The circuits inside a gate stay as they are when controls are put in front. -/
theorem ControlledGate.circuitsFit_flatten {gate : Gate R} {condition : Condition}
    {shape : List Nat} :
    (flatten gate condition shape).toGate.CircuitsFit ↔ gate.CircuitsFit := by
  cases controlled : gate.isControlled with
  | false => rw [Gate.flatten_of_not_isControlled controlled, toGate, Gate.CircuitsFit]
  | true =>
      obtain ⟨sub, innerCondition, innerShape, rfl⟩ := Gate.exists_of_isControlled controlled
      simp only [flatten, toGate, Gate.CircuitsFit]

/-- **What building admits.** Valid controls are put in front of a gate if it is no measurement,
and is a mixture under these controls or depends on symbols. -/
theorem Gate.exists_control_iff {gate : Gate R} {condition : Condition} {shape : List Nat}
    (wellFormed : gate.WellFormed) (fits : gate.CircuitsFit)
    (positive : ∀ dimension ∈ shape ++ gate.shape, 0 < dimension)
    (valid : condition.validate shape = .ok ())
    (storable : Storable amplitudeWidth (shape ++ gate.shape) 1) :
    (∃ built, gate.control { condition := some condition, shape := some shape } = .ok built) ↔
      gate.isMeasurement = false ∧
        ((∃ parts, (ControlledGate.flatten gate condition.simplified shape).toGate.mixture =
          .ok (some parts)) ∨ gate.isParameterized = true) := by
  have admitted :
      (∃ built, gate.control { condition := some condition, shape := some shape } = .ok built) ↔
        gate.checkControllable = .ok () := by
    have agrees : Option.getD none shape.length = shape.length := rfl
    constructor
    · rintro ⟨built, success⟩
      exact ((control_eq_ok_iff_admits agrees).mp success).1.controllable
    · intro controllable
      exact ⟨_, (control_eq_ok_iff_admits agrees).mpr ⟨⟨controllable, positive, valid⟩, rfl⟩⟩
  rw [admitted, checkControllable_eq_ok_iff]
  refine and_congr_right fun unmeasured => ?_
  have built := wellFormed_flatten wellFormed unmeasured positive
    (Condition.validate_simplified_iff.mpr valid) Condition.simplified_simplified
  rw [← shape_flatten] at positive storable
  obtain ⟨parts?, mixes⟩ := exists_mixture built storable positive
    (ControlledGate.circuitsFit_flatten.mpr fits)
  rw [← hasMixture_flatten, hasMixture_eq built storable, mixes]
  cases parts? with
  | none => simp
  | some parts => simp

/-- **Capabilities agree with what there is.** Whatever sequence of operations reaches a gate
whose matrix can be stored, it says that it has a matrix, or a mixture, where it has one; with a
matrix it is the mixture of the matrix alone. It depends on symbols if it has parameter names,
and then it has no matrix. If the matrices in its circuits can be stored, too, nothing of this
faults, and valid controls are put in front of it if it is no measurement, and is a mixture under
these controls or depends on symbols. -/
theorem capabilities_agree {gate : Gate R} (reached : gate.Reachable)
    (storable : Storable amplitudeWidth gate.shape 1) :
    gate.hasUnitary = Option.isSome <$> gate.unitary ∧
    gate.hasMixture = Option.isSome <$> gate.mixture ∧
    (∀ matrix, gate.unitary = .ok (some matrix) → gate.mixture = .ok (some [(1, matrix)])) ∧
    (gate.isParameterized = true ↔ gate.parameterNames.toList ≠ []) ∧
    (gate.isParameterized = true → ∀ matrix, gate.unitary ≠ .ok (some matrix)) ∧
    (gate.CircuitsFit → (∀ dimension ∈ gate.shape, 0 < dimension) →
      (∃ matrix?, gate.unitary = .ok matrix?) ∧ (∃ parts?, gate.mixture = .ok parts?) ∧
        ∀ (condition : Condition) (shape : List Nat), (∀ dimension ∈ shape, 0 < dimension) →
          condition.validate shape = .ok () →
          Storable amplitudeWidth (shape ++ gate.shape) 1 →
          ((∃ built, gate.control { condition := some condition, shape := some shape } =
              .ok built) ↔
            gate.isMeasurement = false ∧
              ((∃ parts, (ControlledGate.flatten gate condition.simplified shape).toGate.mixture =
                .ok (some parts)) ∨ gate.isParameterized = true))) := by
  have wellFormed := reached.wellFormed
  refine ⟨Gate.hasUnitary_eq wellFormed storable, Gate.hasMixture_eq wellFormed storable,
    fun _ => Gate.mixture_of_unitary wellFormed storable, Gate.isParameterized_iff_parameterNames,
    ?_, ?_⟩
  · intro symbolic matrix present
    rw [Gate.not_isParameterized_of_unitary wellFormed present] at symbolic
    cases symbolic
  · intro fits positive
    refine ⟨Gate.exists_unitary wellFormed positive storable fits,
      Gate.exists_mixture wellFormed storable positive fits, ?_⟩
    intro condition shape shapePositive valid
    exact Gate.exists_control_iff wellFormed fits
      (List.forall_mem_append.mpr ⟨shapePositive, positive⟩) valid

/-- A circuit of a rotation about a symbol and an exchange, and a channel, under a qutrit at one
of the levels zero and two, and under a second such qutrit. -/
theorem capabilities_agree_circuit :
    let circuit : Gate Float :=
      .composite [2] (.step (.angle .rz (.symbol "a")) [0] (.step .x [0] .done))
    let outside : Condition := .product (.ofSpecs [.set [0, 2]])
    let guarded : Gate Float := .controlled circuit outside [3]
    let channel : Gate Float := .controlled (.bitFlip 0.25) outside [3]
    guarded.hasUnitary = Option.isSome <$> guarded.unitary ∧
    (∀ matrix, guarded.unitary ≠ .ok (some matrix)) ∧ guarded.parameterNames.toList ≠ [] ∧
    (∃ built, guarded.control { condition := some outside, shape := some [3] } = .ok built) ∧
    channel.hasMixture = Option.isSome <$> channel.mixture ∧
    ∃ parts, (ControlledGate.flatten channel outside [3]).toGate.mixture = .ok (some parts) := by
  intro circuit outside guarded channel
  have circuitReached : circuit.Reachable :=
    .composite (List.forall_mem_cons.mpr ⟨.primitive rfl,
      List.forall_mem_singleton.mpr (.primitive rfl)⟩)
  have guardedBuilt : circuit.control { condition := some outside, shape := some [3] } =
      .ok ⟨circuit, outside, [3]⟩ := rfl
  have channelBuilt : (Gate.bitFlip (0.25 : Float)).control
      { condition := some outside, shape := some [3] } = .ok ⟨.bitFlip 0.25, outside, [3]⟩ := rfl
  have storable : Storable amplitudeWidth [3, 2] 1 := ⟨by decide, by decide, by decide⟩
  have both : Storable amplitudeWidth [3, 3, 2] 1 := ⟨by decide, by decide, by decide⟩
  have guardedReached : guarded.Reachable := .control circuitReached guardedBuilt
  have channelReached : channel.Reachable := .control (.primitive rfl) channelBuilt
  have small : Storable amplitudeWidth [2] 1 := ⟨by decide, by decide, by decide⟩
  have circuitFits : guarded.CircuitsFit :=
    ⟨by decide, small, trivial, by decide, small, trivial, trivial⟩
  obtain ⟨hasUnitary, _, _, names, absent, guardedFits⟩ :=
    capabilities_agree guardedReached storable
  obtain ⟨_, hasMixture, _, _, _, channelFits⟩ := capabilities_agree channelReached storable
  have symbolic : guarded.isParameterized = true := rfl
  obtain ⟨_, _, admits⟩ := guardedFits circuitFits (by decide)
  obtain ⟨_, _, channelAdmits⟩ := channelFits trivial (by decide)
  refine ⟨hasUnitary, absent symbolic, names.mp symbolic, ?_, hasMixture, ?_⟩
  · exact (admits outside [3] (by decide) rfl both).mpr ⟨rfl, .inr symbolic⟩
  · exact ((channelAdmits outside [3] (by decide) rfl both).mp ⟨_, rfl⟩).2.resolve_right
      Bool.false_ne_true

end QuditCircuits
