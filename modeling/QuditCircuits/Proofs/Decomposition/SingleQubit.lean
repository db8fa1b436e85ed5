import QuditCircuits.Proofs.Decomposition.RaisedControls

/-!
# Rotations under products of controls

A gate on a qubit under a product of controls on qubits, which has no special form and applies a
gate that is not taken apart, is replaced by what is synthesized for its matrix under the raised
controls, between two rounds of flips; nothing is left of it if a control accepts no level
(`Gate.decompose_of_product`). If the synthesis is exact (`DecompositionSettings.ExactFor`), so is
the replacement. There are exact settings for every gate on a qubit
(`DecompositionSettings.exactFor_leaving`).
-/

namespace QuditCircuits

open DenseMatrix Register

variable {R : Type}

/-- A gate on one qudit under controls is applied to the controls and one target. -/
theorem Gate.exists_target_of_checkQudits {sub : Gate R} {condition : Condition} {shape : List Nat}
    {qudits : List Qudit}
    (fits : (Gate.controlled sub condition shape).checkQudits qudits = .ok ())
    (single : sub.arity = 1) :
    ∃ controls target, shape = Qudit.dimensions controls ∧ qudits = controls ++ [target] ∧
      sub.shape = Qudit.dimensions [target] := by
  obtain ⟨dimension, subShape⟩ := List.length_eq_one_iff.mp single
  have dimensions : shape ++ sub.shape = Qudit.dimensions qudits := checkQudits_eq_ok_iff.mp fits
  rw [subShape] at dimensions
  obtain ⟨controls, targets, rfl, rfl, last⟩ := List.map_eq_append_iff.mp dimensions.symm
  obtain ⟨target, rfl, rfl⟩ := List.map_eq_singleton_iff.mp last
  exact ⟨controls, target, rfl, rfl, subShape⟩

variable [Scalar R] {settings : DecompositionSettings R (GateResult R)} {sub : Gate R}
  {conjunction : Conjunction} {controls : List Qudit} {target : Qudit} {matrix : Unitary R}

/-! ## The rule for products -/

/-- A gate that has a special form is replaced by it. -/
theorem Gate.decompose_eq_native {condition : Condition} {shape : List Nat} {qudits : List Qudit}
    {operation : Operation R}
    (fits : (Gate.controlled sub condition shape).checkQudits qudits = .ok ())
    (native : (⟨sub, condition, shape⟩ : ControlledGate R).nativeOperation? qudits =
      .ok (some operation)) :
    (Gate.controlled sub condition shape).decompose settings qudits = .ok (some [operation]) := by
  have matched : (⟨sub, condition, shape⟩ : ControlledGate R).toGate.checkQudits qudits = .ok () :=
    fits
  rw [decompose, matched, native]
  rfl

/-- A gate that has no special form is replaced by the parts of the gate that it applies, under
its controls, or by its elementary form if that gate is not taken apart. -/
theorem Gate.decompose_of_plain {condition : Condition} {shape : List Nat} {qudits : List Qudit}
    {parts? : Option (List (Operation R))}
    (fits : (Gate.controlled sub condition shape).checkQudits qudits = .ok ())
    (plain : (⟨sub, condition, shape⟩ : ControlledGate R).nativeOperation? qudits = .ok none)
    (applied : sub.decompose settings.extractingGlobalPhases (qudits.drop shape.length) =
      .ok parts?) :
    (Gate.controlled sub condition shape).decompose settings qudits =
      parts?.elim
        ((⟨sub, condition, shape⟩ : ControlledGate R).form qudits >>= (·.operations? settings))
        fun parts =>
          some <$> parts.mapM (·.controlledBy (qudits.take shape.length) (some condition)) := by
  have matched : (⟨sub, condition, shape⟩ : ControlledGate R).toGate.checkQudits qudits = .ok () :=
    fits
  rw [decompose, matched, plain]
  change (sub.decompose settings.extractingGlobalPhases (qudits.drop shape.length) >>= _) = _
  rw [applied]
  cases parts? <;> rfl

/-- The elementary form of a gate on a qubit under a product of controls on qubits. -/
theorem ControlledGate.form_of_product
    (qubits : ∀ qudit ∈ controls ++ [target], qudit.dimension = 2)
    (present : sub.unitary = .ok (some matrix)) (single : sub.arity = 1) :
    (⟨sub, .product conjunction, Qudit.dimensions controls⟩ : ControlledGate R).form
        (controls ++ [target]) =
      (RaisedControls.ofSets? conjunction.sets controls).map fun raised? =>
        raised?.elim (.explicit []) (.rotation matrix · target) := by
  have qubitsOnly : (controls ++ [target]).any (·.dimension != 2) = false := by
    simpa [or_imp, forall_and] using qubits
  have count : (Qudit.dimensions controls).length = controls.length := List.length_map _
  have nth : Machine.nth (controls ++ [target]) controls.length = .ok target := by
    rw [Machine.nth_eq_ok (by simp), List.getElem_concat_length rfl]
  have listed : (controls ++ [target]).take controls.length = controls := List.take_left
  simp only [form, qubitsOnly, present, single, controlCount, count, listed, nth]
  rcases RaisedControls.ofSets? conjunction.sets controls with reason | _ | raised <;> rfl

/-- **The single-qubit rule.** Controls of which one accepts no level leave nothing of the gate;
otherwise what is synthesized under the raised controls stands between two rounds of flips. -/
theorem Gate.decompose_of_product
    (fits : (Gate.controlled sub (.product conjunction) (Qudit.dimensions controls)).checkQudits
      (controls ++ [target]) = .ok ())
    (valid : conjunction.Fits (Qudit.dimensions controls))
    (plain : (⟨sub, .product conjunction, Qudit.dimensions controls⟩ :
      ControlledGate R).nativeOperation? (controls ++ [target]) = .ok none)
    (whole : sub.decompose settings.extractingGlobalPhases
      ((controls ++ [target]).drop (Qudit.dimensions controls).length) = .ok none)
    (qubits : ∀ qudit ∈ controls ++ [target], qudit.dimension = 2)
    (present : sub.unitary = .ok (some matrix)) (single : sub.arity = 1) :
    (∃ set ∈ conjunction.sets, set.toList = []) ∧
        (Gate.controlled sub (.product conjunction) (Qudit.dimensions controls)).decompose settings
          (controls ++ [target]) = .ok (some []) ∨
      (∀ set ∈ conjunction.sets, set.toList ≠ []) ∧
        ∃ (raised : RaisedControls R) (zeros active : List Nat),
          raised.Raises (controls ++ [target]) conjunction.sets (List.range controls.length) zeros
            active ∧
          (Gate.controlled sub (.product conjunction)
              (Qudit.dimensions controls)).decompose settings (controls ++ [target]) = do
            let rotation ← settings.synthesize matrix raised.active target settings.tolerance
            return some (raised.flips ++ rotation ++ raised.flips) := by
  have controlQubits := (List.forall_mem_append.mp qubits).1
  have elementary := (decompose_of_plain fits plain whole).trans
    (congrArg (· >>= _) (ControlledGate.form_of_product qubits present single))
  rcases RaisedControls.exists_raises PlacedAt.front List.nodup_range controlQubits valid with
    ⟨unsatisfiable, refused⟩ | ⟨satisfiable, raised, zeros, active, brought, raises⟩
  · rw [refused] at elementary
    exact .inl ⟨unsatisfiable, elementary⟩
  · rw [brought] at elementary
    exact .inr ⟨satisfiable, raised, zeros, active, raises, elementary⟩

/-! ## Exact synthesis -/

/-- What is synthesized for a matrix under controls matches its gates, and is the matrix under
these controls at level one. -/
def DecompositionSettings.ExactFor (settings : DecompositionSettings R (GateResult R))
    (matrix : Unitary R) : Prop :=
  ∀ (active : List Qudit) (target : Qudit) (rotation : List (Operation R)),
    (active ++ [target]).Nodup → (∀ qudit ∈ active ++ [target], qudit.dimension = 2) →
    settings.synthesize matrix active target settings.tolerance = .ok rotation →
    (∀ operation ∈ rotation, operation.gate.WellFormed ∧
      operation.gate.checkQudits operation.qudits = .ok ()) ∧
    unitaryOf rotation (active ++ [target]) = some <$> controlledEmbedding amplitudeWidth
      (Qudit.dimensions active) (.product (.ones active.length)) matrix

section Register

variable (valid : (Condition.product conjunction).validate (Qudit.dimensions controls) = .ok ())
  (rows : matrix.rows = (Qudit.dimensions [target]).prod)
  (cols : matrix.cols = (Qudit.dimensions [target]).prod)
include valid rows cols

/-- Where a control accepts no level, nothing has to be done. -/
theorem Conjunction.controlledEmbedding_of_empty
    (unsatisfiable : ∃ set ∈ conjunction.sets, set.toList = [])
    (storable : Storable amplitudeWidth (Qudit.dimensions (controls ++ [target])) 1) :
    controlledEmbedding amplitudeWidth (Qudit.dimensions controls) (.product conjunction) matrix =
      .ok (identity (Qudit.dimensions (controls ++ [target])).prod) := by
  have rejects (assignment : List Nat) :
      (Condition.product conjunction).accepts assignment = false :=
    acceptsWithin_of_empty unsatisfiable assignment
  rw [controlledEmbedding_of_storable valid rows cols storable, controlled_of_rejects rejects,
    Qudit.dimensions_append, List.prod_append, rows]

variable [ExactScalar R] (distinct : (controls ++ [target]).Nodup)
  (qubits : ∀ qudit ∈ controls ++ [target], qudit.dimension = 2)
include distinct qubits

/-- **Exact synthesis between flips** is the gate under its own controls. -/
theorem RaisedControls.Raises.unitaryOf_rotation {raised : RaisedControls R}
    {zeros active : List Nat} {rotation : List (Operation R)}
    (raises : raised.Raises (controls ++ [target]) conjunction.sets (List.range controls.length)
      zeros active)
    (exactness : settings.ExactFor matrix)
    (synthesized : settings.synthesize matrix raised.active target settings.tolerance =
      .ok rotation) :
    unitaryOf (raised.flips ++ rotation ++ raised.flips) (controls ++ [target]) =
      some <$> controlledEmbedding amplitudeWidth (Qudit.dimensions controls)
        (.product conjunction) matrix := by
  by_cases storable : Storable amplitudeWidth (Qudit.dimensions (controls ++ [target])) 1
  case neg => exact unitaryOf_of_large valid rows storable
  case pos =>
    have all : List.range controls.length ++ [controls.length] =
        List.range (Qudit.dimensions (controls ++ [target])).length := by
      simp [Qudit.dimensions, List.range_succ]
    have allDistinct : (List.range controls.length ++ [controls.length]).Nodup :=
      all ▸ List.nodup_range
    have inside : ∀ position ∈ List.range controls.length ++ [controls.length],
        position < (Qudit.dimensions (controls ++ [target])).length :=
      fun position listed => List.mem_range.mp (all ▸ listed)
    have last : PlacedAt (controls ++ [target]) [target] [controls.length] :=
      .cons (by simp) .nil
    -- The synthesized circuit lives on the active controls and the target.
    have part : PlacedAt (controls ++ [target]) (raised.active ++ [target])
        (active ++ [controls.length]) := List.rel_append raises.placed last
    have partDistinct := (raises.active_sublist.append_right [controls.length]).nodup allDistinct
    have partStorable := storable.pick Qudit.pos_of_mem_dimensions partDistinct part.inside
    rw [← part.dimensions] at partStorable
    obtain ⟨matched, composed⟩ := exactness raised.active target rotation
      (part.qudits_nodup distinct partDistinct)
      (fun qudit member => qubits qudit (part.subset member)) synthesized
    have ones := Conjunction.validate_ones fun qudit (member : qudit ∈ raised.active) =>
      qubits qudit (raises.placed.subset member)
    rw [controlledEmbedding_of_storable ones rows cols partStorable] at composed
    -- Over the whole register its controls are those of the gate, in front of the target.
    have front : pick (Qudit.dimensions (controls ++ [target])) (List.range controls.length) =
        Qudit.dimensions controls := PlacedAt.front.dimensions.symm
    have size : (Qudit.dimensions controls).prod * matrix.rows =
        (Qudit.dimensions (controls ++ [target])).prod := by
      rw [rows, Qudit.dimensions_append, List.prod_append]
    rw [controlledEmbedding_of_storable valid rows cols storable,
      raises.unitaryOf_eq storable distinct qubits allDistinct inside (by simp) matched
        (last.dimensions ▸ rows) composed, all, front, lifted_range size size]
    rfl

end Register

/-- Settings that leave a gate under controls at level one as it is. -/
def DecompositionSettings.leaving (sub : Gate R) :
    DecompositionSettings R (GateResult R) :=
  { standard with
    synthesize := fun _ active target _ =>
      .ok [⟨.controlled sub (.product (.ones active.length)) (Qudit.dimensions active),
        active ++ [target]⟩] }

/-- Leaving a gate on a qubit under controls at level one is exact. -/
theorem DecompositionSettings.exactFor_leaving [ExactScalar R] {sub : Gate R}
    {matrix : Unitary R} (wellFormed : sub.WellFormed) (uncontrolled : sub.isControlled = false)
    (unmeasured : sub.isMeasurement = false) (qubit : sub.shape = [2])
    (present : sub.unitary = .ok (some matrix)) : (leaving sub).ExactFor matrix := by
  rintro active target _ distinct qubits ⟨⟩
  obtain ⟨activeQubits, targetQubit⟩ := List.forall_mem_append.mp qubits
  have valid := Conjunction.validate_ones activeQubits
  have targetShape : sub.shape = Qudit.dimensions [target] := by
    simpa [Qudit.dimensions, qubit] using (targetQubit target List.mem_cons_self).symm
  have dimensions : Qudit.dimensions active ++ sub.shape =
      Qudit.dimensions (active ++ [target]) := by
    rw [targetShape, Qudit.dimensions_append]
  obtain ⟨rows, cols⟩ := Gate.size_of_unitary wellFormed present
  rw [targetShape] at rows cols
  have positive : ∀ dimension ∈ Qudit.dimensions active ++ sub.shape, 0 < dimension :=
    dimensions ▸ Qudit.pos_of_mem_dimensions
  have whole : (Gate.controlled sub (.product (.ones active.length))
      (Qudit.dimensions active)).WellFormed :=
    ⟨wellFormed, uncontrolled, unmeasured, positive, valid, rfl⟩
  have fits := Gate.checkQudits_eq_ok_iff.mpr (show (Gate.controlled sub
    (.product (.ones active.length)) (Qudit.dimensions active)).shape = _ from dimensions)
  refine ⟨List.forall_mem_singleton.mpr ⟨whole, fits⟩, ?_⟩
  by_cases storable : Storable amplitudeWidth (Qudit.dimensions (active ++ [target])) 1
  · have embedded := controlledEmbedding_of_storable valid rows cols storable
    have controlledPresent : (Gate.controlled sub (.product (.ones active.length))
        (Qudit.dimensions active)).unitary = .ok (some (controlled (Qudit.dimensions active)
          (.product (.ones active.length)) matrix)) := by
      rw [Gate.unitary_controlled positive, present]
      exact congrArg (some <$> ·) embedded
    rw [embedded]
    exact unitaryOf_singleton whole fits distinct storable controlledPresent
  · exact unitaryOf_of_large valid rows storable

/-- **Rotations under products of controls are replaced exactly.** Take a gate on a qubit with a
matrix, under a product of any number of controls on qubits, that has no special form and applies a
gate that is not taken apart. If the synthesis is exact, the gate is replaced by operations whose
circuit over all its qudits has exactly the matrix under the product, and it is refused only where
the synthesis refuses. If a control accepts no level, it is replaced by no operations, and the
matrix under the product is the identity. -/
theorem raised_controls_are_exact [ExactScalar R]
    (settings : DecompositionSettings R (GateResult R)) {sub : Gate R} {conjunction : Conjunction}
    {shape : List Nat} {qudits : List Qudit} {matrix : Unitary R}
    (wellFormed : (Gate.controlled sub (.product conjunction) shape).WellFormed)
    (fits : (Gate.controlled sub (.product conjunction) shape).checkQudits qudits = .ok ())
    (distinct : qudits.Nodup) (qubits : ∀ qudit ∈ qudits, qudit.dimension = 2)
    (single : sub.arity = 1) (present : sub.unitary = .ok (some matrix))
    (plain : (⟨sub, .product conjunction, shape⟩ : ControlledGate R).nativeOperation? qudits =
      .ok none)
    (whole : sub.decompose settings.extractingGlobalPhases (qudits.drop shape.length) = .ok none)
    (exactness : settings.ExactFor matrix) :
    (∀ parts?, (Gate.controlled sub (.product conjunction) shape).decompose settings qudits =
        .ok parts? →
      ∃ parts, parts? = some parts ∧ unitaryOf parts qudits =
        some <$> controlledEmbedding amplitudeWidth shape (.product conjunction) matrix) ∧
    (∀ reason, (Gate.controlled sub (.product conjunction) shape).decompose settings qudits =
        .error reason →
      ∃ active target, active ++ [target] ⊆ qudits ∧
        settings.synthesize matrix active target settings.tolerance = .error reason) ∧
    ((∃ set ∈ conjunction.sets, set.toList = []) →
      (Gate.controlled sub (.product conjunction) shape).decompose settings qudits =
          .ok (some []) ∧
        (Storable amplitudeWidth (Qudit.dimensions qudits) 1 →
          controlledEmbedding amplitudeWidth shape (.product conjunction) matrix =
            .ok (identity (Qudit.dimensions qudits).prod))) := by
  obtain ⟨subWellFormed, _, _, _, valid, _⟩ := wellFormed
  obtain ⟨controls, target, rfl, rfl, subShape⟩ := Gate.exists_target_of_checkQudits fits single
  obtain ⟨rows, cols⟩ := Gate.size_of_unitary subWellFormed present
  rw [subShape] at rows cols
  have fitting := Condition.validate_eq_ok_iff.mp valid conjunction List.mem_cons_self
  rcases Gate.decompose_of_product fits fitting plain whole qubits present single with
    ⟨unsatisfiable, emitted⟩ | ⟨satisfiable, raised, zeros, active, raises, emitted⟩
  · have identical := Conjunction.controlledEmbedding_of_empty valid rows cols unsatisfiable
    rw [emitted]
    refine ⟨?_, ?_, fun _ => ⟨rfl, identical⟩⟩
    · rintro _ ⟨⟩
      refine ⟨[], rfl, ?_⟩
      by_cases storable : Storable amplitudeWidth (Qudit.dimensions (controls ++ [target])) 1
      · rw [identical storable, unitaryOf, composeStages_eq_applyStages storable]
        rfl
      · exact unitaryOf_of_large valid rows storable
    · rintro reason ⟨⟩
  · rw [emitted]
    refine ⟨?_, ?_, ?_⟩
    · intro parts? built
      obtain ⟨rotation, synthesized, equal⟩ := bind_eq_ok_iff.mp built
      cases equal
      exact ⟨_, rfl, raises.unitaryOf_rotation valid rows cols distinct qubits exactness
        synthesized⟩
    · intro reason refused
      have inside : raised.active ++ [target] ⊆ controls ++ [target] := by
        have listed := raises.placed.subset
        exact List.append_subset.mpr ⟨listed, List.subset_append_right _ _⟩
      rcases bind_eq_error_iff.mp refused with refused | ⟨_, _, returned⟩
      · exact ⟨raised.active, target, inside, refused⟩
      · cases returned
    · rintro ⟨set, member, empty⟩
      exact absurd empty (satisfiable set member)

/-- A rotation under controls at level zero, at level one and at any level, and under one that
accepts no level. -/
theorem raised_controls_are_exact_rotation :
    let turn : Gate ℝ := .angle .rz (.value Real.pi)
    let line : List Qudit := [.qubit 0, .qubit 1, .qubit 2, .qubit 3]
    let guards : Conjunction := .ofSets [[0], [1], [0, 1]]
    let unsatisfiable : Conjunction := .ofSets [[0], [], [1]]
    let settings : DecompositionSettings ℝ (GateResult ℝ) := .leaving turn
    (∃ parts, (Gate.controlled turn (.product guards) [2, 2, 2]).decompose settings line =
        .ok (some parts) ∧ parts.length = 3 ∧
      unitaryOf parts line = some <$> controlledEmbedding amplitudeWidth [2, 2, 2]
        (.product guards) (AngleFamily.rz.unitary Real.pi)) ∧
    (Gate.controlled turn (.product unsatisfiable) [2, 2, 2]).decompose settings line =
      .ok (some []) ∧
    controlledEmbedding amplitudeWidth [2, 2, 2] (.product unsatisfiable)
      (AngleFamily.rz.unitary Real.pi) = .ok (identity 16) := by
  intro turn line guards unsatisfiable settings
  have exactness : settings.ExactFor (AngleFamily.rz.unitary Real.pi) :=
    DecompositionSettings.exactFor_leaving trivial rfl rfl rfl rfl
  have guarded : (Gate.controlled turn (.product guards) [2, 2, 2]).WellFormed :=
    ⟨trivial, rfl, rfl, by decide, rfl, rfl⟩
  have guardedFits : (Gate.controlled turn (.product guards) [2, 2, 2]).checkQudits line =
      .ok () := rfl
  have refused : (Gate.controlled turn (.product unsatisfiable) [2, 2, 2]).WellFormed :=
    ⟨trivial, rfl, rfl, by decide, rfl, rfl⟩
  have refusedFits : (Gate.controlled turn (.product unsatisfiable) [2, 2, 2]).checkQudits line =
      .ok () := rfl
  have storable : Storable amplitudeWidth (Qudit.dimensions line) 1 :=
    ⟨by decide, by decide, by decide⟩
  obtain ⟨replaced, -, -⟩ := raised_controls_are_exact settings guarded guardedFits (by decide)
    (by decide) rfl rfl rfl rfl exactness
  obtain ⟨-, -, emptied⟩ := raised_controls_are_exact settings refused refusedFits (by decide)
    (by decide) rfl rfl rfl rfl exactness
  have emitted : (Gate.controlled turn (.product guards) [2, 2, 2]).decompose settings line =
      .ok (some _) := rfl
  obtain ⟨parts, same, composed⟩ := replaced _ emitted
  obtain ⟨nothing, identical⟩ := emptied ⟨Ascending.empty, by decide, rfl⟩
  cases same
  exact ⟨⟨_, emitted, rfl, composed⟩, nothing, identical storable⟩

end QuditCircuits
