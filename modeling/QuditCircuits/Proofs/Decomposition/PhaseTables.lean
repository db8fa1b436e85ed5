import QuditCircuits.Proofs.Decomposition.Rank
import QuditCircuits.Proofs.Decomposition.SingleQubit

/-!
# Tables of phases

A phase under controls on qubits is replaced by a diagonal gate on the controls. Its table is filled
by setting the angle at the number of every accepted assignment: levels and numbers correspond, so a
basis state has the angle exactly where its levels are accepted (`Register.exists_phaseAngles`). The
table has an angle for each basis state of the controls, however many these are, and from sixty
qubits on there is no such table (`ControlledGate.IsPhase.form_cases`).
-/

namespace QuditCircuits

variable {R : Type}

/-! ## Filling a table -/

namespace Register

/-- Setting an angle at levels within the shape reaches every one of them, and nothing else. -/
theorem exists_foldlM_setAngle {shape : List Nat} (angle : R) {assignments : List (List Nat)}
    (fits : shape.prod < Machine.wordRange)
    (within : ∀ assignment ∈ assignments, Within assignment shape) {angles : Array R}
    (size : angles.size = shape.prod) :
    ∃ table : Array R, assignments.foldlM (fun angles assignment => do
        setAngle angles (← flatIndex assignment shape) angle) angles = .ok table ∧
      table.size = shape.prod ∧ ∀ index < shape.prod,
        table[index]? =
          if levelsOf index shape ∈ assignments then some angle else angles[index]? := by
  induction assignments generalizing angles with
  | nil => exact ⟨angles, rfl, size, fun index _ => (if_neg List.not_mem_nil).symm⟩
  | cons assignment assignments ih =>
      obtain ⟨first, others⟩ := List.forall_mem_cons.mp within
      have inside : number assignment shape < angles.size := size ▸ number_lt first
      have set : setAngle angles (number assignment shape) angle =
          .ok (angles.set (number assignment shape) angle inside) := dif_pos inside
      obtain ⟨table, filled, tableSize, contents⟩ := ih others
        ((Array.size_set inside).trans size : (angles.set _ angle inside).size = shape.prod)
      refine ⟨table, ?_, tableSize, ?_⟩
      · rw [List.foldlM_cons]
        refine bind_eq_ok_iff.mpr ⟨_, ?_, filled⟩
        rw [flatIndex_eq_ok first (Nat.le_of_lt fits)]
        exact set
      · intro index small
        -- The number of the assignment is the index if the assignment is its levels.
        have here : number assignment shape = index ↔ levelsOf index shape = assignment := by
          constructor
          · rintro rfl
            exact levelsOf_number first
          · rintro rfl
            exact number_levelsOf small
        rw [contents index small, Array.getElem?_set, if_congr here rfl rfl,
          if_congr (List.mem_cons.trans or_comm) rfl rfl, ite_or]

variable [Scalar R] {shape : List Nat} {condition : Condition}

/-- A table over a shape whose angles can be stored is filled: it has the angle where the levels of
a basis state are accepted. -/
theorem exists_phaseAngles (angle : R) (positive : ∀ dimension ∈ shape, 0 < dimension)
    (valid : condition.validate shape = .ok ())
    (fits : shape.prod < Machine.wordRange)
    (stored : shape.prod * angleWidth < Machine.addressRange) :
    ∃ table, phaseAngles shape condition angle = .ok table ∧ table.size = shape.prod ∧
      ∀ index < shape.prod,
        table[index]? = some (if condition.accepts (levelsOf index shape) then angle else 0) := by
  have within : ∀ assignment ∈ condition.expand, Within assignment shape :=
    fun assignment listed => Condition.within_of_accepts valid (Condition.mem_expand.mp listed)
  have size : (Array.replicate shape.prod (0 : R)).size = shape.prod := Array.size_replicate
  obtain ⟨table, filled, size, contents⟩ := exists_foldlM_setAngle angle fits within size
  refine ⟨table, bind_eq_ok_iff.mpr ⟨_, Machine.product_eq_ok positive fits, ?_⟩, size, ?_⟩
  · exact bind_eq_ok_iff.mpr ⟨(), Machine.reserve_eq_ok_iff.mpr stored, filled⟩
  · intro index small
    rw [contents index small, Array.getElem?_replicate, if_pos small,
      if_congr Condition.mem_expand rfl rfl, apply_ite some]

/-- A table that is too large for storage is refused, although its size is a word. -/
theorem phaseAngles_eq_capacity {angle : R} (positive : ∀ dimension ∈ shape, 0 < dimension)
    (fits : shape.prod < Machine.wordRange)
    (large : ¬shape.prod * angleWidth < Machine.addressRange) :
    phaseAngles shape condition angle = .error .capacity := by
  rw [phaseAngles, Machine.product_eq_ok positive fits]
  refine bind_eq_error_iff.mpr (.inr ⟨_, rfl, bind_eq_error_iff.mpr (.inl ?_)⟩)
  exact if_neg large

/-- A table whose size is no word is refused before it is filled. -/
theorem phaseAngles_eq_overflow {angle : R} (positive : ∀ dimension ∈ shape, 0 < dimension)
    (large : ¬shape.prod < Machine.wordRange) :
    phaseAngles shape condition angle = .error .overflow := by
  rw [phaseAngles, Machine.product_eq_overflow positive large]
  rfl

end Register

/-! ## Phases under controls -/

/-- As many angles as a number of qubits has basis states make a diagonal gate. -/
theorem Gate.exists_ofAngles {angles : Array R} {count : Nat} (size : angles.size = 2 ^ count) :
    ∃ table : PhaseTable R, table.qubits = count ∧ table.angles = angles ∧
      ofAngles table.angles = .ok (.diagonal table) := by
  have log : angles.size.log2 = count := by rw [size, Nat.log2_two_pow]
  have size_eq : angles.size = Nat.pow 2 angles.size.log2 := by rw [log, size]; rfl
  refine ⟨⟨_, angles, size_eq⟩, log, rfl, ?_⟩
  rw [ofAngles, PhaseTable.ofAngles?, dif_pos size_eq]

variable [Scalar R]

/-- The angles of a table are those of a phase under controls: where the condition accepts the
levels of a basis state it has the angle, and zero elsewhere. -/
structure PhaseTable.Tabulates (table : PhaseTable R) (gate : ControlledGate R) (angle : R) :
    Prop where
  qubits : table.qubits = gate.controlCount
  angles : ∀ index < 2 ^ gate.controlCount, ∃ levels,
    Register.digits index gate.shape = .ok levels ∧
      table.angles[index]? = some (if gate.condition.accepts levels then angle else 0)

namespace ControlledGate

/-- A phase under controls on qubits: it is replaced by a table of phases over the controls. -/
structure IsPhase (gate : ControlledGate R) : Prop where
  qubits : ∀ dimension ∈ gate.shape, dimension = 2
  targets : gate.sub.arity = 0
  present : ∃ matrix, gate.sub.unitary = .ok (some matrix)

namespace IsPhase

variable {gate : ControlledGate R} {qudits : List Qudit} (phase : gate.IsPhase)
include phase

theorem shape_eq : gate.shape = List.replicate gate.controlCount 2 :=
  List.eq_replicate_iff.mpr ⟨rfl, phase.qubits⟩

/-- The table of a phase doubles with every control. -/
theorem prod_shape : gate.shape.prod = 2 ^ gate.controlCount := by
  rw [phase.shape_eq, List.prod_replicate_nat]

theorem dimensions (fits : gate.toGate.checkQudits qudits = .ok ()) :
    gate.shape = Qudit.dimensions qudits := by
  have none : gate.sub.shape = [] := List.length_eq_zero_iff.mp phase.targets
  have dimensions : gate.shape ++ gate.sub.shape = _ := Gate.checkQudits_eq_ok_iff.mp fits
  rwa [none, List.append_nil] at dimensions

/-- A phase has no target, so it applies none of the gates on one qudit. -/
theorem sub_ne {other : Gate R} (targets : other.arity = 1) : gate.sub ≠ other := by
  rintro rfl
  exact absurd (phase.targets.symm.trans targets) Nat.zero_ne_one

/-- Gates on no qudits have no special forms under controls. -/
theorem nativeOperation?_eq : gate.nativeOperation? qudits = .ok none :=
  nativeOperation?_of_ne (phase.sub_ne rfl) (phase.sub_ne rfl)

/-- A phase under controls is read off its matrix and tabulated. -/
theorem form_eq (wellFormed : gate.toGate.WellFormed)
    (fits : gate.toGate.checkQudits qudits = .ok ()) {matrix : Unitary R}
    (present : gate.sub.unitary = .ok (some matrix)) :
    gate.form qudits = (do
      let angles ← liftM
        (Register.phaseAngles gate.shape gate.condition (matrix.entry 0 0).arg)
      return .explicit [← (← Gate.ofAngles angles).on qudits]) := by
  have none : gate.sub.shape = [] := List.length_eq_zero_iff.mp phase.targets
  obtain ⟨rows, cols⟩ := Gate.size_of_unitary wellFormed.1 present
  rw [none, List.prod_nil] at rows cols
  have read : matrix.get 0 0 = .ok (matrix.entry 0 0) :=
    DenseMatrix.get_eq_ok_entry (by omega) (by omega)
  have qubitsOnly : qudits.any (·.dimension != 2) = false := by
    simpa [phase.dimensions fits, Qudit.dimensions] using phase.qubits
  simp only [form, qubitsOnly, present, phase.targets]
  change ((liftM (matrix.get 0 0) : GateResult R (Amplitude R)) >>= _) = _
  rw [read]
  rfl

/-- The table over fewer than 64 qubits has a size. -/
theorem prod_lt_iff : gate.shape.prod < Machine.wordRange ↔ gate.controlCount < 64 := by
  rw [phase.prod_shape]
  exact Nat.pow_lt_pow_iff_right Nat.one_lt_two

/-- The angles over fewer than sixty qubits have addresses. -/
theorem bytes_lt_iff :
    gate.shape.prod * Register.angleWidth < Machine.addressRange ↔ gate.controlCount < 60 := by
  have bytes : gate.shape.prod * Register.angleWidth = 2 ^ (gate.controlCount + 3) := by
    rw [phase.prod_shape, Nat.pow_add]
    rfl
  rw [bytes]
  exact (Nat.pow_lt_pow_iff_right Nat.one_lt_two).trans Nat.add_lt_add_iff_right

/-- The table over fewer than sixty qubits is filled, and becomes a diagonal gate on the controls:
this is the elementary form. -/
theorem exists_table (wellFormed : gate.toGate.WellFormed)
    (fits : gate.toGate.checkQudits qudits = .ok ()) (stored : gate.controlCount < 60)
    {matrix : Unitary R} (present : gate.sub.unitary = .ok (some matrix)) :
    ∃ table : PhaseTable R, table.Tabulates gate (matrix.entry 0 0).arg ∧
      Register.phaseAngles gate.shape gate.condition (matrix.entry 0 0).arg = .ok table.angles ∧
      Gate.ofAngles table.angles = .ok (.diagonal table) ∧
      (Gate.diagonal table).on qudits = .ok ⟨.diagonal table, qudits⟩ ∧
      gate.form qudits = .ok (.explicit [⟨.diagonal table, qudits⟩]) := by
  have sound := sound_of_wellFormed wellFormed
  have shapePositive := (List.forall_mem_append.mp sound.positive).1
  have word : gate.shape.prod < Machine.wordRange :=
    phase.prod_lt_iff.mpr (Nat.lt_trans stored (by decide))
  obtain ⟨angles, filled, size, contents⟩ := Register.exists_phaseAngles (matrix.entry 0 0).arg
    shapePositive sound.valid word (phase.bytes_lt_iff.mpr stored)
  obtain ⟨table, qubits, rfl, tabled⟩ := Gate.exists_ofAngles (size.trans phase.prod_shape)
  have applied : (Gate.diagonal table).on qudits = .ok ⟨.diagonal table, qudits⟩ := by
    apply Gate.on_eq_ok rfl
    rw [Gate.shape, qubits, ← phase.shape_eq, phase.dimensions fits]
  refine ⟨table, ⟨qubits, ?_⟩, filled, tabled, applied, ?_⟩
  · intro index small
    exact ⟨_, Register.digits_eq_ok shapePositive, contents index (phase.prod_shape ▸ small)⟩
  · rw [phase.form_eq wellFormed fits present, filled]
    change (Gate.ofAngles table.angles >>= _) = _
    rw [tabled]
    change ((Gate.diagonal table).on qudits >>= _) = _
    rw [applied]
    rfl

/-- **Tables of phases.** The table over fewer than sixty qubits is stored. Beyond, its storage
cannot be addressed, and from 64 qubits on its size is no word. -/
theorem form_cases (wellFormed : gate.toGate.WellFormed)
    (fits : gate.toGate.checkQudits qudits = .ok ()) :
    (gate.controlCount < 60 ∧ ∃ table : PhaseTable R, table.qubits = gate.controlCount ∧
        gate.form qudits = .ok (.explicit [⟨.diagonal table, qudits⟩])) ∨
      (60 ≤ gate.controlCount ∧ gate.controlCount < 64 ∧
        gate.form qudits = .error (.fault .capacity)) ∨
      64 ≤ gate.controlCount ∧ gate.form qudits = .error (.fault .overflow) := by
  obtain ⟨matrix, present⟩ := phase.present
  have shapePositive :=
    (List.forall_mem_append.mp (sound_of_wellFormed wellFormed).positive).1
  rcases Nat.lt_or_ge gate.controlCount 60 with stored | large
  · obtain ⟨table, tabulates, -, -, -, form⟩ := phase.exists_table wellFormed fits stored present
    exact .inl ⟨stored, table, tabulates.qubits, form⟩
  · rw [phase.form_eq wellFormed fits present]
    rcases Nat.lt_or_ge gate.controlCount 64 with counted | beyond
    · rw [Register.phaseAngles_eq_capacity shapePositive (phase.prod_lt_iff.mpr counted)
        fun addressed => Nat.not_lt.mpr large (phase.bytes_lt_iff.mp addressed)]
      exact .inr (.inl ⟨large, counted, rfl⟩)
    · rw [Register.phaseAngles_eq_overflow shapePositive
        fun word => Nat.not_lt.mpr beyond (phase.prod_lt_iff.mp word)]
      exact .inr (.inr ⟨beyond, rfl⟩)

end IsPhase

end ControlledGate

/-- **Controlled phases become diagonal.** A phase under controls on qubits that operations reach,
which is not taken apart itself and whose table can be stored, is replaced by a single diagonal gate
on its controls, for any condition and on any qudits that match it. The gate has an angle for each
basis state of the controls: that of the phase where the condition accepts its levels, and zero
elsewhere. It is built and applied without a fault. -/
theorem controlled_phases_become_diagonal {gate : ControlledGate R} {phase : Amplitude R}
    (reached : gate.toGate.Reachable) (qubits : ∀ dimension ∈ gate.shape, dimension = 2)
    (targets : gate.sub.arity = 0)
    (present : gate.sub.unitary = .ok (some (.ofFn 1 1 fun _ _ => phase)))
    (stored : 2 ^ gate.controlCount * Register.angleWidth < Machine.addressRange)
    {qudits : List Qudit} (fits : gate.toGate.checkQudits qudits = .ok ())
    (settings : DecompositionSettings R (GateResult R))
    (whole : gate.sub.decompose settings.extractingGlobalPhases
      (qudits.drop gate.controlCount) = .ok none) :
    gate.nativeOperation? qudits = .ok none ∧ qudits.take gate.controlCount = qudits ∧
      ∃ table : PhaseTable R,
        gate.toGate.decompose settings qudits = .ok (some [⟨.diagonal table, qudits⟩]) ∧
        table.angles.size = 2 ^ gate.controlCount ∧
        (∀ index < 2 ^ gate.controlCount, ∃ levels,
          Register.digits index gate.shape = .ok levels ∧ table.angles[index]? =
            some (if gate.condition.accepts levels then phase.arg else 0)) ∧
        Register.phaseAngles gate.shape gate.condition phase.arg = .ok table.angles ∧
        Gate.ofAngles table.angles = .ok (.diagonal table) ∧
        (Gate.diagonal table).on qudits = .ok ⟨.diagonal table, qudits⟩ := by
  have wellFormed := reached.wellFormed
  have isPhase : gate.IsPhase := ⟨qubits, targets, _, present⟩
  have small : gate.controlCount < 60 := by
    rwa [← isPhase.prod_shape, isPhase.bytes_lt_iff] at stored
  have entry : (DenseMatrix.ofFn 1 1 fun _ _ => phase).entry 0 0 = phase :=
    DenseMatrix.entry_ofFn Nat.one_pos Nat.one_pos
  obtain ⟨table, tabulates, filled, tabled, applied, form⟩ :=
    isPhase.exists_table wellFormed fits small present
  rw [entry] at tabulates filled
  refine ⟨isPhase.nativeOperation?_eq, ?_, table, ?_, ?_, tabulates.angles, filled, tabled,
    applied⟩
  · apply List.take_of_length_le
    have same := congrArg List.length (isPhase.dimensions fits)
    rw [Qudit.dimensions, List.length_map] at same
    exact same.ge
  · have elementary : gate.toGate.decompose settings qudits =
        gate.form qudits >>= (·.operations? settings) :=
      Gate.decompose_of_plain fits isPhase.nativeOperation?_eq whole
    rw [elementary, form]
    rfl
  · exact table.size_eq.trans (congrArg (Nat.pow 2) tabulates.qubits)

/-- A phase under two qubits, the second at level one and the first at any, one case a term. -/
theorem controlled_phases_become_diagonal_either :
    let either : Condition := .sum {
      width := 2
      terms := .ofList [.ofValues [0, 1], .ofValues [1, 1]]
      nonempty := by decide
      uniform := by decide }
    let gate : ControlledGate Float := ⟨.angle .globalPhase (.value 0.5), either, [2, 2]⟩
    let angle : Float := (Amplitude.cis 0.5).arg
    gate.toGate.Reachable ∧ ∃ table : PhaseTable Float,
      gate.toGate.decompose .standard (Qudit.qubits 2) =
          .ok (some [⟨.diagonal table, Qudit.qubits 2⟩]) ∧
        table.angles.size = 4 ∧ table.angles[0]? = some 0 ∧ table.angles[1]? = some angle ∧
        table.angles[2]? = some 0 ∧ table.angles[3]? = some angle := by
  intro either gate angle
  have built : (Gate.angle .globalPhase (.value (0.5 : Float))).control
      { condition := some either } = .ok gate := rfl
  have reached : gate.toGate.Reachable := .control (.primitive rfl) built
  have qubits : ∀ dimension ∈ gate.shape, dimension = 2 := by decide
  have fits : gate.toGate.checkQudits (Qudit.qubits 2) = .ok () := rfl
  obtain ⟨-, -, table, decomposed, size, angles, -⟩ :=
    controlled_phases_become_diagonal reached qubits rfl rfl (by decide) fits .standard rfl
  obtain ⟨_, ⟨⟩, first⟩ := angles 0 (by decide)
  obtain ⟨_, ⟨⟩, second⟩ := angles 1 (by decide)
  obtain ⟨_, ⟨⟩, third⟩ := angles 2 (by decide)
  obtain ⟨_, ⟨⟩, fourth⟩ := angles 3 (by decide)
  exact ⟨reached, table, decomposed, size, first, second, third, fourth⟩

end QuditCircuits
