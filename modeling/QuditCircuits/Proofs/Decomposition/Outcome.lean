import QuditCircuits.Proofs.Decomposition.PhaseTables
import QuditCircuits.Proofs.Gate.Capabilities
import QuditCircuits.Proofs.Gate.Resolution
import QuditCircuits.Proofs.Operation.Layers

/-!
# What becomes of a controlled gate

A controlled gate around a gate that is no circuit is replaced by its special form, by turns
under its controls if it applies a matrix to a qubit, by a table of phases if it applies a phase,
and by what is synthesized if it applies a gate to a qubit under a product. Otherwise it is left
as it is (`ControlledGate.Irreducible`). None of this is refused and no step faults, but for the
table of phases: it has an angle for each basis state of the controls, however many these are, and
from sixty qubits on there is no such table (`ControlledGate.IsPhase.form_cases`).
-/

namespace QuditCircuits

variable {R : Type} [Scalar R]

/-! ## Gates without circuits -/

/-- Whether a gate that may be controlled has a matrix is found out without a fault. -/
theorem Gate.exists_unitary_of_checkControllable {gate : Gate R}
    (uncontrolled : gate.isControlled = false) (controllable : gate.checkControllable = .ok ()) :
    ∃ matrix?, gate.unitary = .ok matrix? := by
  by_cases channel : ∃ probability, gate = .bitFlip probability
  · obtain ⟨probability, rfl⟩ := channel
    exact ⟨none, by rw [unitary]⟩
  · obtain ⟨-, mixes, mixture, -⟩ := checkControllable_eq_ok_iff.mp controllable
    rw [hasMixture_of_not_isControlled uncontrolled,
      mixture_eq_map_unitary uncontrolled (not_exists.mp channel), isSome_map] at mixture
    cases present : gate.unitary with
    | ok matrix? => exact ⟨matrix?, rfl⟩
    | error fault =>
        rw [present] at mixture
        cases mixture

/-- A gate that is neither controlled nor a circuit is a matrix on a qubit, or no rule takes it
apart. -/
theorem Gate.decompose_of_library {gate : Gate R} (uncontrolled : gate.isControlled = false)
    (library : ∀ shape body, gate ≠ .composite shape body) :
    (∃ entries, gate = .matrix entries [2]) ∨
      ∀ (settings : DecompositionSettings R (GateResult R)) (qudits : List Qudit),
        gate.decompose settings qudits = .ok none := by
  cases gate
  case matrix entries shape =>
    by_cases single : shape = [2]
    · exact .inl ⟨entries, by rw [single]⟩
    · refine .inr fun settings qudits => ?_
      rw [decompose, if_neg single]
      rfl
  case controlled => cases uncontrolled
  case composite shape body => exact absurd rfl (library shape body)
  all_goals exact .inr fun _ _ => rfl

namespace ControlledGate

variable {gate : ControlledGate R} {qudits : List Qudit}
  {settings : DecompositionSettings R (GateResult R)}

/-- A controlled gate as it is built around a gate that is no circuit. -/
structure IsPlain (gate : ControlledGate R) : Prop where
  wellFormed : gate.toGate.WellFormed
  controllable : gate.sub.checkControllable = .ok ()
  library : ∀ shape body, gate.sub ≠ .composite shape body

/-- The controlled sign change has a special form, which is itself. -/
theorem nativeOperation?_of_phaseFlip (wellFormed : gate.toGate.WellFormed)
    (sign : gate.sub = .phaseFlip) : gate.nativeOperation? qudits = .ok none := by
  have ⟨_, _, _, positive, valid, _⟩ := wellFormed
  have admits : Gate.phaseFlip.Admits gate.condition gate.shape := ⟨rfl, sign ▸ positive, valid⟩
  have agrees : (some gate.controlCount).getD gate.shape.length = gate.shape.length := rfl
  have built := (Gate.control_eq_ok_iff_admits agrees).mpr ⟨admits, rfl⟩
  have same := same_of_control_phaseFlip wellFormed sign built
  rw [nativeOperation?, sign, Gate.native, built]
  exact if_pos same

/-- The exchange has a special form under one qubit, which matches any qudits it is given. -/
theorem exists_nativeOperation?_of_x (fits : gate.toGate.checkQudits qudits = .ok ())
    (exchange : gate.sub = .x) : ∃ operation?, gate.nativeOperation? qudits = .ok operation? := by
  have dimensions : gate.shape ++ gate.sub.shape = _ := Gate.checkQudits_eq_ok_iff.mp fits
  by_cases single :
      (gate.controlCount == 1 && gate.shape == [2] && gate.condition.isTrivial) = true
  · have special : gate.sub.native gate.controlCount gate.condition gate.shape =
        .ok (some .cx) := by
      rw [exchange]
      exact if_pos single
    have applied : Gate.cx.on qudits = .ok (⟨.cx, qudits⟩ : Operation R) := by
      refine Gate.on_eq_ok rfl ?_
      have qubit : gate.shape = [2] := by simp_all
      rw [← dimensions, exchange, qubit]
      rfl
    refine ⟨some ⟨.cx, qudits⟩, ?_⟩
    rw [nativeOperation?, special]
    change (Gate.cx.on qudits >>= _) = _
    rw [applied]
    rfl
  · refine ⟨none, ?_⟩
    rw [nativeOperation?, exchange, Gate.native, if_neg single]
    rfl

/-- Whether there is a special form is found out without a fault. -/
theorem exists_nativeOperation? (wellFormed : gate.toGate.WellFormed)
    (fits : gate.toGate.checkQudits qudits = .ok ()) :
    ∃ operation?, gate.nativeOperation? qudits = .ok operation? := by
  by_cases sign : gate.sub = .phaseFlip
  · exact ⟨none, nativeOperation?_of_phaseFlip wellFormed sign⟩
  · by_cases exchange : gate.sub = .x
    · exact exists_nativeOperation?_of_x fits exchange
    · exact ⟨none, nativeOperation?_of_ne sign exchange⟩

end ControlledGate

/-! ## Matrices under controls -/

/-- A gate with a known angle on qudits that match it. -/
structure Operation.IsTurn (operation : Operation R) : Prop where
  angle : ∃ family angle, operation.gate = .angle family (.value angle)
  matched : operation.gate.shape = Qudit.dimensions operation.qudits

/-- A turn is left out or applied to qudits that match it. -/
theorem AngleFamily.exists_onUnlessSmall (family : AngleFamily) (tolerance angle : R)
    {qudits : List Qudit} (fits : family.shape = Qudit.dimensions qudits) :
    ∃ turns : List (Operation R), family.onUnlessSmall tolerance angle qudits = .ok turns ∧
      ∀ turn ∈ turns, turn.IsTurn := by
  unfold onUnlessSmall
  split
  case isTrue =>
    have applied : (Gate.angle family (.value angle)).on qudits = .ok _ := Gate.on_eq_ok rfl fits
    refine ⟨_, bind_eq_ok_iff.mpr ⟨_, applied, rfl⟩, List.forall_mem_singleton.mpr ?_⟩
    exact ⟨⟨family, angle, rfl⟩, fits⟩
  case isFalse => exact ⟨[], rfl, List.forall_mem_nil _⟩

/-- The Euler angles of a matrix make turns of a qubit. -/
theorem EulerAngles.exists_operations (angles : EulerAngles R) (extractsGlobalPhases : Bool)
    (tolerance : R) {qudits : List Qudit} (qubit : Qudit.dimensions qudits = [2]) :
    ∃ turns, angles.operations extractsGlobalPhases tolerance qudits = .ok turns ∧
      ∀ turn ∈ turns, turn.IsTurn := by
  obtain ⟨first, firstTurned, firstTurns⟩ :=
    AngleFamily.rz.exists_onUnlessSmall tolerance angles.delta qubit.symm
  obtain ⟨second, secondTurned, secondTurns⟩ :=
    AngleFamily.ry.exists_onUnlessSmall tolerance angles.gamma qubit.symm
  obtain ⟨third, thirdTurned, thirdTurns⟩ :=
    AngleFamily.rz.exists_onUnlessSmall tolerance angles.beta qubit.symm
  obtain ⟨phase, phased, phaseTurns⟩ :=
    AngleFamily.globalPhase.exists_onUnlessSmall tolerance angles.alpha
      (rfl : _ = Qudit.dimensions [])
  have turns : ∀ turn ∈ first ++ second ++ third, turn.IsTurn := by
    simp only [List.forall_mem_append]
    exact ⟨⟨firstTurns, secondTurns⟩, thirdTurns⟩
  rw [operations, firstTurned, secondTurned, thirdTurned]
  cases extractsGlobalPhases with
  | true =>
      change ∃ result, (AngleFamily.globalPhase.onUnlessSmall tolerance angles.alpha [] >>= _) =
        .ok result ∧ _
      rw [phased]
      exact ⟨_, rfl, List.forall_mem_append.mpr ⟨turns, phaseTurns⟩⟩
  | false => exact ⟨_, rfl, List.forall_mem_append.mpr ⟨turns, List.forall_mem_nil _⟩⟩

/-- Controls can be added to a turn. -/
theorem Operation.IsTurn.exists_controlledBy {turn : Operation R} (isTurn : turn.IsTurn)
    {controls : List Qudit} {condition : Condition}
    (valid : condition.validate (Qudit.dimensions controls) = .ok ())
    (simplified : condition.simplified = condition) :
    ∃ wrapped, turn.controlledBy controls (some condition) = .ok wrapped ∧
      (wrapped = turn ∨
        wrapped.gate = .controlled turn.gate condition (Qudit.dimensions controls)) := by
  obtain ⟨⟨family, angle, same⟩, matched⟩ := isTurn
  by_cases none : controls = []
  · subst none
    exact ⟨turn, rfl, .inl rfl⟩
  · have controllable : turn.gate.checkControllable = .ok () := by
      rw [same]
      rfl
    have positive : ∀ dimension ∈ Qudit.dimensions controls ++ turn.gate.shape, 0 < dimension := by
      rw [matched, ← Qudit.dimensions_append]
      exact Qudit.pos_of_mem_dimensions
    refine ⟨_, (controlledBy_eq_ok_iff none).mpr ⟨⟨controllable, positive, valid⟩, matched, rfl⟩,
      .inr ?_⟩
    rw [simplified, same]
    rfl

namespace ControlledGate

variable {gate : ControlledGate R} {qudits : List Qudit}
  {settings : DecompositionSettings R (GateResult R)}

/-- The same controls around a turn. -/
def turning (gate : ControlledGate R) (family : AngleFamily) (angle : R) : ControlledGate R :=
  { gate with sub := .angle family (.value angle) }

/-- The gates that a rule leaves in place of a controlled gate: simple ones, and turns of its
target under its controls. -/
inductive Leaves (gate : ControlledGate R) : Gate R → Prop
  | simple {part : Gate R} (simple : part.IsSimple) : gate.Leaves part
  | turn {family : AngleFamily} {angle : R} (single : gate.sub.arity = 1) :
      gate.Leaves (gate.turning family angle).toGate

/-- The controls of a gate can be added to turns of its target. -/
theorem exists_controlled_turns (wellFormed : gate.toGate.WellFormed)
    (fits : gate.toGate.checkQudits qudits = .ok ()) (single : gate.sub.arity = 1)
    {turns : List (Operation R)} (areTurns : ∀ turn ∈ turns, turn.IsTurn) :
    ∃ parts, turns.mapM (·.controlledBy (qudits.take gate.shape.length) (some gate.condition)) =
        .ok parts ∧
      ∀ part ∈ parts, gate.Leaves part.gate := by
  have ⟨_, _, _, _, valid, simplified⟩ := wellFormed
  have controls := (dimensions_of_checkQudits fits).1
  refine exists_mapM fun turn member => ?_
  have isTurn := areTurns turn member
  obtain ⟨family, angle, same⟩ := isTurn.angle
  obtain ⟨part, success, bare | guarded⟩ := isTurn.exists_controlledBy (controls ▸ valid)
    simplified
  · refine ⟨part, success, .simple (.inl ?_)⟩
    rw [bare, same]
    rfl
  · refine ⟨part, success, ?_⟩
    rw [guarded, same, controls]
    exact .turn single

/-- A matrix on a qubit under controls is replaced by turns under these controls. -/
theorem decompose_of_matrix (wellFormed : gate.toGate.WellFormed)
    (fits : gate.toGate.checkQudits qudits = .ok ()) {entries : Unitary R}
    (matrix : gate.sub = .matrix entries [2]) :
    ∃ parts, gate.toGate.decompose settings qudits = .ok (some parts) ∧
      ∀ part ∈ parts, gate.Leaves part.gate := by
  have targets : Qudit.dimensions (qudits.drop gate.shape.length) = [2] := by
    rw [(dimensions_of_checkQudits fits).2, matrix]
    rfl
  have native : gate.nativeOperation? qudits = .ok none :=
    nativeOperation?_of_ne (by simp [matrix]) (by simp [matrix])
  obtain ⟨turns, turned, areTurns⟩ :=
    (EulerAngles.ofMatrix entries).exists_operations true settings.tolerance targets
  have apart : gate.sub.decompose settings.extractingGlobalPhases
      (qudits.drop gate.shape.length) = .ok (some turns) := by
    rw [matrix, Gate.decompose, if_pos rfl]
    exact bind_eq_ok_iff.mpr ⟨turns, turned, rfl⟩
  have single : gate.sub.arity = 1 := by
    rw [matrix]
    rfl
  obtain ⟨parts, wrapped, leaves⟩ := exists_controlled_turns wellFormed fits single areTurns
  refine ⟨parts, ?_, leaves⟩
  rw [toGate, Gate.decompose_of_plain fits native apart, Option.elim_some, wrapped]
  rfl

/-! ## Where no rule applies -/

/-- The controlled gates that are left by full decomposition: those without a matrix, on other
qudits than qubits, on several targets, or on one target under a sum. -/
def Irreducible (gate : ControlledGate R) : Prop :=
  gate.sub.unitary = .ok none ∨ (∃ dimension ∈ gate.toGate.shape, dimension ≠ 2) ∨
    2 ≤ gate.sub.arity ∨ gate.sub.arity = 1 ∧ gate.condition.isSum = true

/-- A gate that is left by full decomposition has no elementary form. -/
theorem Irreducible.form_eq (irreducible : gate.Irreducible) (plain : gate.IsPlain)
    (fits : gate.toGate.checkQudits qudits = .ok ()) : gate.form qudits = .ok .unknown := by
  have dimensions : gate.toGate.shape = Qudit.dimensions qudits :=
    Gate.checkQudits_eq_ok_iff.mp fits
  obtain ⟨matrix?, present⟩ := Gate.exists_unitary_of_checkControllable plain.wellFormed.2.1
    plain.controllable
  by_cases other : qudits.any (·.dimension != 2) = true
  · simp only [form, other]
    rfl
  · cases matrix? with
    | none =>
        simp only [form, other, present]
        rfl
    | some matrix =>
        rcases irreducible with absent | ⟨dimension, inside, different⟩ | several | ⟨single, sum⟩
        · cases absent.symm.trans present
        · rw [dimensions, Qudit.dimensions, List.mem_map] at inside
          obtain ⟨qudit, inside, rfl⟩ := inside
          exact absurd (List.any_eq_true.mpr ⟨qudit, inside, by simpa using different⟩) other
        · obtain ⟨more, arity⟩ : ∃ more, gate.sub.arity = more + 2 :=
            ⟨_, (Nat.sub_add_cancel several).symm⟩
          simp only [form, other, present, arity]
          rfl
        · cases condition : gate.condition with
          | product conjunction =>
              rw [condition] at sum
              cases sum
          | sum disjunction =>
              simp only [form, other, present, single, condition]
              rfl

/-- Other gates are phases under controls on qubits, or a matrix on a qubit under a product of
controls on qubits. -/
theorem IsPlain.cases_of_not_irreducible (plain : gate.IsPlain) (reducible : ¬gate.Irreducible) :
    gate.IsPhase ∨ (∀ dimension ∈ gate.toGate.shape, dimension = 2) ∧ gate.sub.arity = 1 ∧
      (∃ matrix, gate.sub.unitary = .ok (some matrix)) ∧
        ∃ conjunction, gate.condition = .product conjunction := by
  obtain ⟨matrix?, present⟩ := Gate.exists_unitary_of_checkControllable plain.wellFormed.2.1
    plain.controllable
  simp only [Irreducible, not_or, not_exists, not_and, not_not] at reducible
  obtain ⟨absent, qubits, few, product⟩ := reducible
  cases matrix? with
  | none => exact absurd present absent
  | some matrix =>
      by_cases targets : gate.sub.arity = 0
      · exact .inl ⟨fun dimension inside => qubits dimension (List.mem_append_left _ inside),
          targets, matrix, present⟩
      · have single : gate.sub.arity = 1 := by omega
        refine .inr ⟨qubits, single, ⟨matrix, present⟩, ?_⟩
        cases condition : gate.condition with
        | product conjunction => exact ⟨conjunction, rfl⟩
        | sum disjunction =>
            rw [condition] at product
            exact absurd rfl (product single)

/-- A matrix on a qubit under a product of controls on qubits is replaced by simple gates. -/
theorem IsPlain.decompose_of_product (plain : gate.IsPlain)
    (default : settings.synthesize = synthesize)
    (fits : gate.toGate.checkQudits qudits = .ok ())
    (native : gate.nativeOperation? qudits = .ok none)
    (whole : gate.sub.decompose settings.extractingGlobalPhases (qudits.drop gate.shape.length) =
      .ok none)
    (qubits : ∀ dimension ∈ gate.toGate.shape, dimension = 2) (single : gate.sub.arity = 1)
    {matrix : Unitary R} (present : gate.sub.unitary = .ok (some matrix))
    {conjunction : Conjunction} (product : gate.condition = .product conjunction) :
    ∃ parts, gate.toGate.decompose settings qudits = .ok (some parts) := by
  obtain ⟨sub, condition, shape⟩ := gate
  subst product
  have ⟨subWellFormed, _, _, _, valid, _⟩ := plain.wellFormed
  obtain ⟨controls, target, rfl, rfl, subShape⟩ := Gate.exists_target_of_checkQudits fits single
  have dimensions : (Gate.controlled sub (.product conjunction)
      (Qudit.dimensions controls)).shape = Qudit.dimensions (controls ++ [target]) :=
    Gate.checkQudits_eq_ok_iff.mp fits
  have qubitsOnly : ∀ qudit ∈ controls ++ [target], qudit.dimension = 2 := fun qudit member =>
    qubits qudit.dimension (dimensions ▸ List.mem_map_of_mem member)
  have fitting := Condition.validate_eq_ok_iff.mp valid conjunction List.mem_cons_self
  rcases Gate.decompose_of_product fits fitting native whole qubitsOnly present single with
    ⟨-, emitted⟩ | ⟨-, raised, zeros, active, raises, emitted⟩
  · exact ⟨[], emitted⟩
  · have corner : 2 ≤ matrix.rows ∧ 2 ≤ matrix.cols := by
      have two : (Qudit.dimensions [target]).prod = 2 := by
        simpa [Qudit.dimensions] using qubitsOnly target (by simp)
      obtain ⟨rows, cols⟩ := Gate.size_of_unitary subWellFormed present
      rw [subShape, two] at rows cols
      exact ⟨rows.ge, cols.ge⟩
    have levels : ∀ qudit ∈ raised.active ++ [target], qudit.dimension = 2 := by
      intro qudit member
      rcases List.mem_append.mp member with active | last
      · exact qubitsOnly qudit (raises.placed.subset active)
      · exact qubitsOnly qudit (List.mem_append_right _ last)
    obtain ⟨rotation, synthesized⟩ := exists_synthesize settings.tolerance corner levels
    exact ⟨_, emitted.trans (bind_eq_ok_iff.mpr ⟨rotation, default ▸ synthesized, rfl⟩)⟩

/-- **Outcome of a rule.** A controlled gate around a gate that is no circuit, and that is no
phase under controls on qubits, is replaced by simple gates and turns, or it is left as it is. -/
theorem IsPlain.decompose_of_not_isPhase (plain : gate.IsPlain) (tabled : ¬gate.IsPhase)
    (default : settings.synthesize = synthesize)
    (fits : gate.toGate.checkQudits qudits = .ok ()) :
    (∃ parts, gate.toGate.decompose settings qudits = .ok (some parts) ∧
        ∀ part ∈ parts, gate.Leaves part.gate) ∨
      gate.Irreducible ∧ gate.toGate.decompose settings qudits = .ok none := by
  have wellFormed := plain.wellFormed
  obtain ⟨native?, native⟩ := exists_nativeOperation? wellFormed fits
  cases native? with
  | some operation =>
      left
      refine ⟨[operation], ?_, List.forall_mem_singleton.mpr (.simple (.inl ?_))⟩
      · exact Gate.decompose_eq_native fits native
      · rw [gate_of_nativeOperation? wellFormed native]
        rfl
  | none =>
      rcases Gate.decompose_of_library wellFormed.2.1 plain.library with
        ⟨entries, matrix⟩ | whole
      · exact .inl (decompose_of_matrix wellFormed fits matrix)
      · have whole := whole settings.extractingGlobalPhases (qudits.drop gate.shape.length)
        have elementary : gate.toGate.decompose settings qudits =
            gate.form qudits >>= (·.operations? settings) :=
          Gate.decompose_of_plain fits native whole
        by_cases irreducible : gate.Irreducible
        · right
          rw [elementary, irreducible.form_eq plain fits]
          exact ⟨irreducible, rfl⟩
        · left
          rcases plain.cases_of_not_irreducible irreducible with phase | reducible
          · exact absurd phase tabled
          · obtain ⟨qubits, single, ⟨matrix, present⟩, conjunction, product⟩ := reducible
            obtain ⟨parts, decomposed⟩ := plain.decompose_of_product default fits native whole
              qubits single present product
            refine ⟨parts, decomposed, fun part member => ?_⟩
            rw [elementary] at decomposed
            obtain ⟨form, formed, decomposed⟩ := bind_eq_ok_iff.mp decomposed
            exact .simple (applies_of_form default formed decomposed part member).kind

/-- A phase under controls on qubits is replaced by its table, if that can be stored. -/
theorem IsPlain.decompose_of_isPhase (plain : gate.IsPlain)
    (settings : DecompositionSettings R (GateResult R)) (phase : gate.IsPhase)
    (fits : gate.toGate.checkQudits qudits = .ok ()) :
    (gate.controlCount < 60 ∧ ∃ table : PhaseTable R, table.qubits = gate.controlCount ∧
        gate.toGate.decompose settings qudits = .ok (some [⟨.diagonal table, qudits⟩])) ∨
      (60 ≤ gate.controlCount ∧ gate.controlCount < 64 ∧
        gate.toGate.decompose settings qudits = .error (.fault .capacity)) ∨
      64 ≤ gate.controlCount ∧
        gate.toGate.decompose settings qudits = .error (.fault .overflow) := by
  have whole (inner : DecompositionSettings R (GateResult R)) (targets : List Qudit) :
      gate.sub.decompose inner targets = .ok none := by
    rcases Gate.decompose_of_library plain.wellFormed.2.1 plain.library with
      ⟨entries, matrix⟩ | whole
    · exact absurd matrix (phase.sub_ne rfl)
    · exact whole inner targets
  have elementary : gate.toGate.decompose settings qudits =
      gate.form qudits >>= (·.operations? settings) :=
    Gate.decompose_of_plain fits phase.nativeOperation?_eq (whole _ _)
  rw [elementary]
  rcases phase.form_cases plain.wellFormed fits with
    ⟨small, table, size, form⟩ | ⟨large, counted, form⟩ | ⟨large, form⟩
  · rw [form]
    exact .inl ⟨small, table, size, rfl⟩
  · rw [form]
    exact .inr (.inl ⟨large, counted, rfl⟩)
  · rw [form]
    exact .inr (.inr ⟨large, rfl⟩)

/-- A rule fails if and only if there is no table for the phase. -/
theorem IsPlain.decompose_eq_error_iff (plain : gate.IsPlain)
    (default : settings.synthesize = synthesize)
    (fits : gate.toGate.checkQudits qudits = .ok ()) (reason : GateError R) :
    gate.toGate.decompose settings qudits = .error reason ↔
      gate.IsPhase ∧
        (60 ≤ gate.controlCount ∧ gate.controlCount < 64 ∧ reason = .fault .capacity ∨
          64 ≤ gate.controlCount ∧ reason = .fault .overflow) := by
  by_cases phase : gate.IsPhase
  · rcases plain.decompose_of_isPhase settings phase fits with
      ⟨small, table, -, decomposed⟩ | ⟨large, counted, decomposed⟩ | ⟨large, decomposed⟩
    · rw [decomposed]
      exact iff_of_false nofun (by omega)
    · rw [decomposed]
      constructor
      · rintro ⟨⟩
        exact ⟨phase, .inl ⟨large, counted, rfl⟩⟩
      · rintro ⟨-, ⟨-, -, rfl⟩ | ⟨beyond, -⟩⟩
        · rfl
        · exact absurd counted (Nat.not_lt.mpr beyond)
    · rw [decomposed]
      constructor
      · rintro ⟨⟩
        exact ⟨phase, .inr ⟨large, rfl⟩⟩
      · rintro ⟨-, ⟨-, counted, -⟩ | ⟨-, rfl⟩⟩
        · exact absurd large (Nat.not_le.mpr counted)
        · rfl
  · refine iff_of_false ?_ fun large => phase large.1
    intro failed
    rcases plain.decompose_of_not_isPhase phase default fits with
      ⟨parts, decomposed, -⟩ | ⟨-, decomposed⟩
    · cases decomposed.symm.trans failed
    · cases decomposed.symm.trans failed

end ControlledGate

/-- What operations reach around a gate that is no circuit. -/
theorem ControlledGate.isPlain_of_reachable {gate : ControlledGate R}
    (reached : gate.toGate.Reachable) (library : ∀ shape body, gate.sub ≠ .composite shape body) :
    gate.IsPlain :=
  ⟨reached.wellFormed, reached.checkControllable rfl library, library⟩

/-- **Decomposing faults only on large tables.** A rule for a controlled gate around a gate that
is no circuit, on qudits that match it and with the default synthesis, neither refuses nor faults,
unless the gate is a phase under sixty controls on qubits or more. The table of its phases has no
address then, and from 64 controls on its size is no word. Under fewer controls the phase is
replaced by a diagonal gate on as many qubits. -/
theorem decomposing_faults_on_large_tables {gate : ControlledGate R}
    (reached : gate.toGate.Reachable) (library : ∀ shape body, gate.sub ≠ .composite shape body)
    {qudits : List Qudit} (fits : gate.toGate.checkQudits qudits = .ok ())
    (settings : DecompositionSettings R (GateResult R))
    (default : settings.synthesize = synthesize) :
    ((∃ parts?, gate.toGate.decompose settings qudits = .ok parts?) ↔
      ¬(gate.IsPhase ∧ 60 ≤ gate.controlCount)) ∧
    (∀ reason, gate.toGate.decompose settings qudits = .error reason ↔
      gate.IsPhase ∧
        (60 ≤ gate.controlCount ∧ gate.controlCount < 64 ∧ reason = .fault .capacity ∨
          64 ≤ gate.controlCount ∧ reason = .fault .overflow)) ∧
    (gate.IsPhase → gate.controlCount < 60 → ∃ table : PhaseTable R,
      table.qubits = gate.controlCount ∧
        gate.toGate.decompose settings qudits = .ok (some [⟨.diagonal table, qudits⟩])) := by
  have plain := ControlledGate.isPlain_of_reachable reached library
  have failure := plain.decompose_eq_error_iff default fits
  refine ⟨?_, failure, fun phase small => ?_⟩
  · constructor
    · rintro ⟨parts?, decomposed⟩ ⟨phase, large⟩
      rcases Nat.lt_or_ge gate.controlCount 64 with counted | beyond
      · cases decomposed.symm.trans ((failure _).mpr ⟨phase, .inl ⟨large, counted, rfl⟩⟩)
      · cases decomposed.symm.trans ((failure _).mpr ⟨phase, .inr ⟨beyond, rfl⟩⟩)
    · intro stored
      cases decomposed : gate.toGate.decompose settings qudits with
      | ok parts? => exact ⟨parts?, rfl⟩
      | error reason =>
          obtain ⟨phase, ⟨large, -⟩ | ⟨large, -⟩⟩ := (failure reason).mp decomposed
          · exact absurd ⟨phase, large⟩ stored
          · exact absurd ⟨phase, Nat.le_trans (by decide) large⟩ stored
  · rcases plain.decompose_of_isPhase settings phase fits with
      ⟨-, tabled⟩ | ⟨large, -⟩ | ⟨large, -⟩
    · exact tabled
    · exact absurd small (Nat.not_lt.mpr large)
    · exact absurd small (Nat.not_lt.mpr (Nat.le_trans (by decide) large))

/-- A phase under two qubits at level one becomes a diagonal gate on them. -/
theorem decomposing_faults_on_large_tables_pair :
    let phase : Gate Float := .angle .globalPhase (.value 0.5)
    let gate : ControlledGate Float := ⟨phase, .product (.ones 2), [2, 2]⟩
    phase.control { count := some 2 } = .ok gate ∧ gate.toGate.Reachable ∧
      (∀ shape body, gate.sub ≠ .composite shape body) ∧
      gate.toGate.checkQudits (Qudit.qubits 2) = .ok () ∧
      ∃ table : PhaseTable Float, table.qubits = 2 ∧
        gate.toGate.decompose .standard (Qudit.qubits 2) =
          .ok (some [⟨.diagonal table, Qudit.qubits 2⟩]) := by
  intro phase gate
  have built : phase.control { count := some 2 } = .ok gate := rfl
  have reached : gate.toGate.Reachable := .control (.primitive rfl) built
  have library : ∀ shape body, gate.sub ≠ .composite shape body := nofun
  have fits : gate.toGate.checkQudits (Qudit.qubits 2) = .ok () := rfl
  obtain ⟨-, -, tabled⟩ := decomposing_faults_on_large_tables reached library fits .standard rfl
  have isPhase : gate.IsPhase := ⟨by decide, rfl, _, rfl⟩
  exact ⟨built, reached, library, fits, tabled isPhase (by decide)⟩

/-- A phase is accepted under 64 controls, and its decomposition overflows. -/
theorem phase_under_many_controls_faults :
    let phase : Gate Float := .angle .globalPhase (.value 0.5)
    let gate : ControlledGate Float := ⟨phase, .product (.ones 64), List.replicate 64 2⟩
    phase.control { count := some 64 } = .ok gate ∧
      gate.toGate.checkQudits (Qudit.qubits 64) = .ok () ∧
      gate.toGate.decompose .standard (Qudit.qubits 64) = .error (.fault .overflow) := by
  intro phase gate
  have built : phase.control { count := some 64 } = .ok gate := rfl
  have fits : gate.toGate.checkQudits (Qudit.qubits 64) = .ok () := rfl
  have reached : gate.toGate.Reachable := .control (.primitive rfl) built
  have plain := ControlledGate.isPlain_of_reachable reached nofun
  have isPhase : gate.IsPhase := ⟨by decide, rfl, _, rfl⟩
  rcases plain.decompose_of_isPhase .standard isPhase fits with
    ⟨small, -⟩ | ⟨-, counted, -⟩ | ⟨-, decomposed⟩
  · exact absurd small (by decide)
  · exact absurd counted (by decide)
  · exact ⟨built, fits, decomposed⟩

end QuditCircuits
