import QuditCircuits.Decomposition.OneLevel
import QuditCircuits.Proofs.Synthesis.Extent

/-!
# Where parts come from

A controlled gate is replaced by its special form, by the parts of its applied gate under its
controls, or by its elementary form (`ControlledGate.decompose_cases`). Elementary forms and
explicit matrices become turns of a qubit, flips of controls, tables of phases and pulses. Each
of these applies a gate without parts, or an explicit matrix, to qudits of the operation it comes
from. How far a decomposition goes and on which qudits is read off from this.
-/

namespace QuditCircuits

variable {R : Type}

namespace Machine

variable {α : Type} {items : List α}

theorem mem_of_nth {position : Nat} {item : α} (found : nth items position = .ok item) :
    item ∈ items := by
  unfold nth at found
  split at found
  case h_1 present =>
    cases found
    exact List.mem_of_getElem? present
  case h_2 => cases found

theorem subset_of_select {positions : List Nat} {selected : List α}
    (found : select items positions = .ok selected) : selected ⊆ items := by
  intro item member
  obtain ⟨_, _, here⟩ := exists_of_mem_mapM found member
  exact mem_of_nth here

end Machine

/-! ## Applied gates -/

/-- The gates with a matrix of their own that no rule takes apart. -/
def Gate.isElementary : Gate R → Bool
  | .x | .cx | .angle _ _ | .diagonal _ => true
  | .matrix _ _ | .measurement _ _ | .bitFlip _ | .controlled _ _ _ | .reset | .idle _ | .phaseFlip
  | .composite _ _ => false

namespace Operation

variable {register larger : List Qudit} {operation : Operation R} {kind other : Gate R → Prop}

/-- An operation whose qudits match its gate and belong to a register. -/
structure Within (register : List Qudit) (operation : Operation R) : Prop where
  matched : operation.gate.checkQudits operation.qudits = .ok ()
  inside : operation.qudits ⊆ register

/-- An operation within a register that applies a gate of some kind. -/
structure Applies (kind : Gate R → Prop) (register : List Qudit) (operation : Operation R) :
    Prop extends Within register operation where
  kind : kind operation.gate

theorem Within.mono (within : operation.Within register) (le : register ⊆ larger) :
    operation.Within larger :=
  ⟨within.matched, List.Subset.trans within.inside le⟩

theorem Applies.mono (applies : operation.Applies kind register) (le : register ⊆ larger) :
    operation.Applies kind larger :=
  ⟨applies.toWithin.mono le, applies.kind⟩

theorem Applies.imp (applies : operation.Applies kind register)
    (weaker : ∀ gate, kind gate → other gate) : operation.Applies other register :=
  ⟨applies.toWithin, weaker _ applies.kind⟩

/-- An operation that is made is on its qudits, and matches its gate. -/
theorem within_of_make {gate : Gate R} {qudits : List Qudit}
    (made : make gate qudits = .ok operation) : operation.Within qudits := by
  obtain ⟨fits, rfl⟩ := make_eq_ok_iff.mp made
  exact ⟨Gate.checkQudits_eq_ok_iff.mpr fits, List.Subset.refl _⟩

/-- A gate that is applied to qudits matches them. -/
theorem within_of_on {gate : Gate R} {qudits : List Qudit}
    (applied : gate.on qudits = .ok operation) : operation.Within qudits :=
  within_of_make (make_of_on applied)

/-- A gate of a kind, applied to qudits, is an operation of this kind on them. -/
theorem applies_of_on {gate : Gate R} {qudits : List Qudit}
    (applied : gate.on qudits = .ok operation) (isKind : kind gate) :
    operation.Applies kind qudits := by
  have within := within_of_on applied
  obtain ⟨-, rfl⟩ := make_eq_ok_iff.mp (make_of_on applied)
  exact ⟨within, isKind⟩

end Operation

/-! ## Flips of controls -/

/-- Raising controls flips some of them and keeps some of them. -/
theorem RaisedControls.applies_of_ofSets? {sets : List (Ascending Nat)} {controls : List Qudit}
    {raised : RaisedControls R} (brought : ofSets? sets controls = .ok (some raised)) :
    (∀ flip ∈ raised.flips, flip.Applies (·.isElementary = true) controls) ∧
      raised.active ⊆ controls := by
  induction sets, controls using ofSets?.induct generalizing raised with
  | case1 set sets control controls empty =>
      rw [ofSets?, empty] at brought
      cases brought
  | case2 set sets control controls zero ih =>
      rw [ofSets?, zero] at brought
      obtain ⟨flip, applied, brought⟩ := bind_eq_ok_iff.mp brought
      obtain ⟨raised?, others, brought⟩ := bind_eq_ok_iff.mp brought
      obtain ⟨rest, rfl, rfl⟩ := Option.map_eq_some_iff.mp (Except.ok.inj brought)
      obtain ⟨flips, active⟩ := ih others
      have first : flip.Applies (·.isElementary = true) [control] :=
        Operation.applies_of_on applied rfl
      refine ⟨List.forall_mem_cons.mpr ⟨?_, ?_⟩, List.cons_subset_cons _ active⟩
      · exact first.mono (List.cons_subset_cons _ (List.nil_subset _))
      · exact fun flip member => (flips flip member).mono (List.subset_cons_self _ _)
  | case3 set sets control controls both ih =>
      rw [ofSets?, both] at brought
      obtain ⟨flips, active⟩ := ih brought
      exact ⟨fun flip member => (flips flip member).mono (List.subset_cons_self _ _),
        List.Subset.trans active (List.subset_cons_self _ _)⟩
  | case4 set sets control controls occupied notZero notBoth ih =>
      rw [ofSets?] at brought
      split at brought
      case h_1 empty => exact absurd empty occupied
      case h_2 zero => exact absurd zero notZero
      case h_3 both => exact absurd both notBoth
      case h_4 =>
        obtain ⟨raised?, others, brought⟩ := bind_eq_ok_iff.mp brought
        obtain ⟨rest, rfl, rfl⟩ := Option.map_eq_some_iff.mp (Except.ok.inj brought)
        obtain ⟨flips, active⟩ := ih others
        exact ⟨fun flip member => (flips flip member).mono (List.subset_cons_self _ _),
          List.cons_subset_cons _ active⟩
  | case5 sets controls done =>
      rw [ofSets?] at brought
      · cases brought
        exact ⟨List.forall_mem_nil _, List.nil_subset _⟩
      · exact done

/-- A table of angles that is accepted makes a diagonal gate. -/
theorem Gate.isElementary_of_ofAngles {angles : Array R} {gate : Gate R}
    (tabled : ofAngles angles = .ok gate) : gate.isElementary = true := by
  unfold ofAngles at tabled
  split at tabled
  case h_1 =>
    cases tabled
    rfl
  case h_2 => cases tabled

variable [Scalar R]

/-! ## Turns and pulses -/

/-- A turn is left out or applied to the qudits. -/
theorem AngleFamily.applies_of_onUnlessSmall {family : AngleFamily} {tolerance angle : R}
    {qudits : List Qudit} {operations : List (Operation R)}
    (turned : family.onUnlessSmall tolerance angle qudits = .ok operations) :
    ∀ operation ∈ operations, operation.Applies (·.isElementary = true) qudits := by
  unfold onUnlessSmall at turned
  split at turned
  case isTrue =>
    obtain ⟨turn, applied, turned⟩ := bind_eq_ok_iff.mp turned
    cases turned
    exact List.forall_mem_singleton.mpr (Operation.applies_of_on applied rfl)
  case isFalse =>
    cases turned
    exact List.forall_mem_nil _

/-- The turns of a matrix are on its qudits; its phase is on none. -/
theorem EulerAngles.applies_of_operations {angles : EulerAngles R} {extractsGlobalPhases : Bool}
    {tolerance : R} {qudits : List Qudit} {operations : List (Operation R)}
    (turned : angles.operations extractsGlobalPhases tolerance qudits = .ok operations) :
    ∀ operation ∈ operations, operation.Applies (·.isElementary = true) qudits := by
  obtain ⟨first, firstTurned, turned⟩ := bind_eq_ok_iff.mp turned
  obtain ⟨second, secondTurned, turned⟩ := bind_eq_ok_iff.mp turned
  obtain ⟨third, thirdTurned, turned⟩ := bind_eq_ok_iff.mp turned
  have turns : ∀ operation ∈ first ++ second ++ third,
      operation.Applies (·.isElementary = true) qudits := by
    simp only [List.forall_mem_append]
    exact ⟨⟨AngleFamily.applies_of_onUnlessSmall firstTurned,
      AngleFamily.applies_of_onUnlessSmall secondTurned⟩,
      AngleFamily.applies_of_onUnlessSmall thirdTurned⟩
  dsimp only at turned
  split at turned
  case isTrue =>
    obtain ⟨phase, phased, turned⟩ := bind_eq_ok_iff.mp turned
    cases turned
    refine List.forall_mem_append.mpr ⟨turns, fun operation member => ?_⟩
    exact (AngleFamily.applies_of_onUnlessSmall phased operation member).mono (List.nil_subset _)
  case isFalse =>
    cases turned
    exact List.forall_mem_append.mpr ⟨turns, List.forall_mem_nil _⟩

/-- The gates that rotations under controls are built from. -/
def Gate.IsSimple (gate : Gate R) : Prop :=
  gate.isElementary = true ∨ ∃ entries, ofMatrix? entries [2] = .ok (some gate)

/-- A pulse is applied to its qubits. -/
theorem Pulse.applies_of_operation? {pulse : Pulse R Qudit} {operation : Operation R}
    (found : pulse.operation? = .ok (some operation)) :
    operation.Applies Gate.IsSimple pulse.qubits := by
  obtain ⟨applied, wellFormed⟩ := Pulse.on_of_operation? found
  cases pulse with
  | matrix entries target => exact Operation.applies_of_on applied (.inr ⟨_, wellFormed⟩)
  | flip target | cnot control target | turn family angle target =>
      exact Operation.applies_of_on applied (.inl rfl)

/-- Synthesis applies simple gates to the controls and the target. -/
theorem applies_of_synthesize {matrix : Unitary R} {controls : List Qudit} {target : Qudit}
    {tolerance : R} {operations : List (Operation R)}
    (built : synthesize matrix controls target tolerance = .ok operations) :
    ∀ operation ∈ operations, operation.Applies Gate.IsSimple (controls ++ [target]) := by
  intro operation member
  obtain ⟨-, steps, rotated, found, mapped, rfl⟩ := synthesize_eq_ok_iff.mp built
  obtain ⟨_, stepsOk, stepsWithin⟩ := RotationStep.exists_rotate_within matrix controls target []
  cases stepsOk.symm.trans rotated
  obtain ⟨_, inside, rfl⟩ := List.mem_filterMap.mp member
  obtain ⟨pulse, pulseMember, applied⟩ := exists_of_mem_mapM mapped inside
  obtain ⟨step, stepMember, ofStep⟩ := List.mem_flatMap.mp pulseMember
  have onStep := (RotationStep.within_of_mem_pulses ofStep).qubits
  exact (Pulse.applies_of_operation? applied).mono
    (List.Subset.trans onStep (stepsWithin step stepMember))

/-! ## Elementary forms -/

namespace ControlledGate

variable {settings : DecompositionSettings R (GateResult R)} {gate : ControlledGate R}
  {qudits : List Qudit}

/-- An elementary form is given by operations on the qudits, or by a rotation of one of them with
controls and flips among them. -/
theorem form_cases {form : ControlledForm R} (elementary : gate.form qudits = .ok form) :
    form = .unknown ∨
      (∃ operations, form = .explicit operations ∧
        ∀ operation ∈ operations, operation.Applies (·.isElementary = true) qudits) ∨
      ∃ matrix raised target, form = .rotation matrix raised target ∧
        (∀ flip ∈ raised.flips, flip.Applies (·.isElementary = true) qudits) ∧
        raised.active ++ [target] ⊆ qudits := by
  simp only [ControlledGate.form] at elementary
  split at elementary
  case isTrue => exact .inl (Except.ok.inj elementary).symm
  case isFalse =>
    obtain ⟨matrix?, _, elementary⟩ := bind_eq_ok_iff.mp elementary
    cases matrix? with
    | none => exact .inl (Except.ok.inj elementary).symm
    | some matrix =>
        dsimp only at elementary
        split at elementary
        case h_1 =>
          obtain ⟨phase, _, elementary⟩ := bind_eq_ok_iff.mp elementary
          obtain ⟨angles, _, elementary⟩ := bind_eq_ok_iff.mp elementary
          obtain ⟨table, tabled, elementary⟩ := bind_eq_ok_iff.mp elementary
          obtain ⟨operation, applied, elementary⟩ := bind_eq_ok_iff.mp elementary
          exact .inr (.inl ⟨_, (Except.ok.inj elementary).symm, List.forall_mem_singleton.mpr
            (Operation.applies_of_on applied (Gate.isElementary_of_ofAngles tabled))⟩)
        case h_2 conjunction one product =>
          obtain ⟨raised?, brought, elementary⟩ := bind_eq_ok_iff.mp elementary
          cases raised? with
          | none =>
              exact .inr (.inl ⟨_, (Except.ok.inj elementary).symm, List.forall_mem_nil _⟩)
          | some raised =>
              obtain ⟨target, found, elementary⟩ := bind_eq_ok_iff.mp elementary
              obtain ⟨flips, active⟩ := RaisedControls.applies_of_ofSets? brought
              have controls : qudits.take gate.controlCount ⊆ qudits := List.take_subset _ _
              have inLine := Machine.mem_of_nth (liftFault_eq_ok_iff.mp found)
              refine .inr (.inr ⟨_, _, _, (Except.ok.inj elementary).symm,
                fun flip member => (flips flip member).mono controls,
                List.append_subset.mpr ⟨List.Subset.trans active controls, ?_⟩⟩)
              exact List.cons_subset.mpr ⟨inLine, List.nil_subset _⟩
        case h_3 => exact .inl (Except.ok.inj elementary).symm

/-- An elementary form consists of flips, a table of phases and what is synthesized. -/
theorem applies_of_form (default : settings.synthesize = synthesize) {form : ControlledForm R}
    {parts : List (Operation R)} (elementary : gate.form qudits = .ok form)
    (decomposed : form.operations? settings = .ok (some parts)) :
    ∀ part ∈ parts, part.Applies Gate.IsSimple qudits := by
  rcases form_cases elementary with rfl | ⟨operations, rfl, applies⟩ |
    ⟨matrix, raised, target, rfl, primitive, qubits⟩
  · cases decomposed
  · cases decomposed
    exact fun part member => (applies part member).imp fun _ => .inl
  · obtain ⟨rotation, synthesized, equal⟩ := bind_eq_ok_iff.mp decomposed
    rw [default] at synthesized
    cases equal
    have flips : ∀ flip ∈ raised.flips, flip.Applies Gate.IsSimple qudits :=
      fun flip member => (primitive flip member).imp fun _ => .inl
    simp only [List.forall_mem_append]
    exact ⟨⟨flips, fun part member => (applies_of_synthesize synthesized part member).mono qubits⟩,
      flips⟩

/-! ## Rules for controlled gates -/

/-- A special form is applied only if it is another gate. -/
theorem exists_of_nativeOperation? {operation : Operation R}
    (native : gate.nativeOperation? qudits = .ok (some operation)) :
    ∃ special, gate.sub.native gate.controlCount gate.condition gate.shape = .ok (some special) ∧
      ¬special.same gate.toGate = true ∧ special.on qudits = .ok operation := by
  obtain ⟨special?, found, native⟩ := bind_eq_ok_iff.mp native
  cases special? with
  | none => cases native
  | some special =>
      dsimp only at native
      split at native
      case isTrue => cases native
      case isFalse different =>
        obtain ⟨_, applied, equal⟩ := bind_eq_ok_iff.mp native
        cases equal
        exact ⟨special, liftFault_eq_ok_iff.mp found, different, applied⟩

/-- The three rules that replace a controlled gate. -/
theorem decompose_cases {parts : List (Operation R)}
    (decomposed : gate.toGate.decompose settings qudits = .ok (some parts)) :
    (∃ operation, gate.nativeOperation? qudits = .ok (some operation) ∧ parts = [operation]) ∨
      (∃ applied, gate.sub.decompose settings.extractingGlobalPhases
          (qudits.drop gate.controlCount) = .ok (some applied) ∧
        applied.mapM (·.controlledBy (qudits.take gate.controlCount) (some gate.condition)) =
          .ok parts) ∨
      ∃ form, gate.form qudits = .ok form ∧ form.operations? settings = .ok (some parts) := by
  rw [toGate, Gate.decompose] at decomposed
  obtain ⟨_, _, decomposed⟩ := bind_eq_ok_iff.mp decomposed
  obtain ⟨native?, native, decomposed⟩ := bind_eq_ok_iff.mp decomposed
  cases native? with
  | some operation =>
      cases decomposed
      exact .inl ⟨operation, native, rfl⟩
  | none =>
      obtain ⟨applied?, apart, decomposed⟩ := bind_eq_ok_iff.mp decomposed
      cases applied? with
      | some applied =>
          obtain ⟨_, wrapped, equal⟩ := bind_eq_ok_iff.mp decomposed
          cases equal
          exact .inr (.inl ⟨applied, apart, wrapped⟩)
      | none => exact .inr (.inr (bind_eq_ok_iff.mp decomposed))

end ControlledGate

end QuditCircuits
