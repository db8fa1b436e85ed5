import QuditCircuits.Proofs.Gate.Blocks
import QuditCircuits.Proofs.Operation.ControlledParts

/-!
# Gates that operations reach

Building checks a request, but the resolution of symbols and the gate of a controlled
operation put a controlled gate together without these checks, and absorbed controls are
not checked again. Every operation on gates still keeps them well-formed
(`Gate.Reachable.wellFormed`), so each controlled gate that a sequence of operations reaches
has the form that the checks ask for.
-/

namespace QuditCircuits

variable {R : Type}

namespace Gate

/-- Gates that need no check and hold no other gates. -/
def isPrimitive : Gate R → Bool
  | .matrix _ _ | .controlled _ _ _ | .composite _ _ => false
  | .x | .cx | .angle _ _ | .diagonal _ | .measurement _ _ | .bitFlip _ | .reset | .idle _
  | .phaseFlip => true

/-- The gates that operations reach, in any order and number. -/
inductive Reachable [Scalar R] : Gate R → Prop
  | primitive {gate : Gate R} (plain : gate.isPrimitive = true) : Reachable gate
  | matrix {entries : Unitary R} {shape : List Nat} {gate : Gate R}
      (accepted : ofMatrix? entries shape = .ok (some gate)) : Reachable gate
  | composite {shape : List Nat} {body : Circuit R}
      (steps : ∀ step ∈ body.toList, Reachable step.1) : Reachable (.composite shape body)
  | control {sub : Gate R} {request : ControlRequest} {built : ControlledGate R}
      (whole : Reachable sub) (success : sub.control request = .ok built) : Reachable built.toGate
  | rebuild {edited built : ControlledGate R} (whole : Reachable edited.sub)
      (success : edited.rebuild = .ok built) : Reachable built.toGate
  | applied {gate : ControlledGate R} (whole : Reachable gate.toGate) : Reachable gate.sub
  | pow {gate power : Gate R} {exponent : R} (whole : Reachable gate)
      (raised : gate.pow exponent = .ok (some power)) : Reachable power
  | resolve {gate : Gate R} (bindings : Bindings R) (recursive : Bool) (whole : Reachable gate) :
      Reachable (gate.resolve bindings recursive)
  | native {gate special : Gate R} {count : Nat} {condition : Condition} {shape : List Nat}
      (whole : Reachable gate)
      (found : gate.native count condition shape = .ok (some special)) : Reachable special
  | controlledBy {operation wrapped : Operation R} {controls : List Qudit}
      {condition : Option Condition} (whole : Reachable operation.gate)
      (success : operation.controlledBy controls condition = .ok wrapped) : Reachable wrapped.gate
  | bound {gate : ControlledGate R} {qudits : List Qudit} {operation : ControlledOperation R}
      (whole : Reachable gate.toGate) (success : gate.on qudits = .ok operation) :
      Reachable operation.gate.toGate

end Gate

/-- What is promised of a controlled gate. A condition that is a sum has several terms. -/
structure ControlledGate.Sound (gate : ControlledGate R) : Prop where
  width : gate.condition.width = gate.shape.length
  valid : gate.condition.validate gate.shape = .ok ()
  positive : ∀ dimension ∈ gate.shape ++ gate.sub.shape, 0 < dimension
  uncontrolled : gate.sub.isControlled = false
  unmeasured : gate.sub.isMeasurement = false
  several : ∀ disjunction, gate.condition = .sum disjunction →
    2 ≤ disjunction.terms.toList.length

mutual

/-- The controlled gates that a gate consists of, itself included, at any depth. -/
def Gate.controlledParts : Gate R → List (ControlledGate R)
  | .controlled sub condition shape => ⟨sub, condition, shape⟩ :: sub.controlledParts
  | .composite _ body => body.controlledParts
  | .x | .cx | .angle _ _ | .diagonal _ | .matrix _ _ | .measurement _ _ | .bitFlip _ | .reset
  | .idle _ | .phaseFlip => []

/-- The controlled gates of a circuit at any depth. -/
def Circuit.controlledParts : Circuit R → List (ControlledGate R)
  | .done => []
  | .step gate _ rest => gate.controlledParts ++ rest.controlledParts

end

/-- A simplified sum has two alternatives at least. -/
theorem Condition.two_le_of_simplified {disjunction : Disjunction}
    (simplified : (Condition.sum disjunction).simplified = .sum disjunction) :
    2 ≤ disjunction.terms.toList.length := by
  match terms : disjunction.terms.toList with
  | [] => exact absurd terms disjunction.nonempty
  | [conjunction] =>
      simp only [Condition.simplified, terms] at simplified
      cases simplified
  | first :: second :: rest => exact Nat.le_add_left 2 rest.length

variable {bindings : Bindings R} {recursive : Bool}

namespace Gate

theorem isMeasurement_resolve (gate : Gate R) :
    (gate.resolve bindings recursive).isMeasurement = gate.isMeasurement := by
  cases gate <;> rfl

/-- Resolved symbols leave the qudits of a gate as they are. -/
theorem shape_resolve (gate : Gate R) : (gate.resolve bindings recursive).shape = gate.shape := by
  match gate with
  | .controlled sub condition shape =>
      rw [resolve, shape_flatten, sub.shape_resolve]
      rfl
  | .x | .cx | .angle _ _ | .diagonal _ | .matrix _ _ | .measurement _ _ | .bitFlip _ | .reset
  | .idle _ | .phaseFlip | .composite _ _ => rfl

theorem eq_ok_of_allowed {α : Type} {result : GateResult R α} {value : α}
    (success : GateResult.allowed result = .ok (some value)) : result = .ok value := by
  cases result with
  | ok other =>
      cases success
      rfl
  | error reason => cases reason <;> cases success

end Gate

variable [Scalar R]

/-- A controlled gate that is well-formed is sound. -/
theorem ControlledGate.sound_of_wellFormed {gate : ControlledGate R}
    (wellFormed : gate.toGate.WellFormed) : gate.Sound := by
  obtain ⟨_, uncontrolled, unmeasured, positive, valid, simplified⟩ := wellFormed
  refine ⟨(Condition.length_eq_of_validate valid).symm, valid, positive, uncontrolled, unmeasured,
    fun disjunction same => ?_⟩
  rw [same] at simplified
  exact Condition.two_le_of_simplified simplified

mutual

/-- The controlled parts of a well-formed gate are sound. -/
theorem Gate.sound_of_mem_controlledParts {gate : Gate R} {part : ControlledGate R}
    (wellFormed : gate.WellFormed) (member : part ∈ gate.controlledParts) : part.Sound := by
  match gate with
  | .controlled sub condition shape =>
      rcases List.mem_cons.mp member with rfl | inside
      · exact ControlledGate.sound_of_wellFormed wellFormed
      · exact sub.sound_of_mem_controlledParts wellFormed.1 inside
  | .composite shape body => exact body.sound_of_mem_controlledParts wellFormed member

/-- The controlled gates inside a well-formed circuit are sound. -/
theorem Circuit.sound_of_mem_controlledParts {circuit : Circuit R} {part : ControlledGate R}
    (wellFormed : circuit.WellFormed) (member : part ∈ circuit.controlledParts) : part.Sound := by
  match circuit with
  | .step gate _ rest =>
      rcases List.mem_append.mp member with inside | inside
      · exact gate.sound_of_mem_controlledParts wellFormed.1 inside
      · exact rest.sound_of_mem_controlledParts wellFormed.2 inside

end

/-- A circuit is well-formed if the gates of its steps are. -/
theorem Circuit.wellFormed_of_toList {circuit : Circuit R}
    (steps : ∀ step ∈ circuit.toList, step.1.WellFormed) : circuit.WellFormed := by
  match circuit with
  | .done => trivial
  | .step gate positions rest =>
      obtain ⟨first, others⟩ := List.forall_mem_cons.mp steps
      exact ⟨first, rest.wellFormed_of_toList others⟩

namespace Gate

theorem wellFormed_of_isPrimitive {gate : Gate R} (plain : gate.isPrimitive = true) :
    gate.WellFormed := by
  cases gate
  case matrix | controlled | composite => cases plain
  all_goals trivial

theorem eq_of_ofMatrix {entries : Unitary R} {shape : List Nat} {gate : Gate R}
    (accepted : ofMatrix? entries shape = .ok (some gate)) : gate = .matrix entries shape := by
  obtain ⟨size, _, built⟩ := bind_eq_ok_iff.mp accepted
  split at built
  case isTrue => exact (Option.some.inj (Except.ok.inj built)).symm
  case isFalse => cases built

theorem wellFormed_of_ofMatrix {entries : Unitary R} {shape : List Nat} {gate : Gate R}
    (accepted : ofMatrix? entries shape = .ok (some gate)) : gate.WellFormed := by
  have same := eq_of_ofMatrix accepted
  subst same
  exact accepted

/-- What is built with refusals read as absence is built. -/
theorem exists_of_allowed {sub built : Gate R} {request : ControlRequest}
    (success : (do return (← GateResult.allowed (sub.control request)).map ControlledGate.toGate) =
      Except.ok (some built)) :
    ∃ controlled, sub.control request = .ok controlled ∧ controlled.toGate = built := by
  obtain ⟨whole, allowed, mapped⟩ := bind_eq_ok_iff.mp success
  obtain ⟨controlled, rfl, rfl⟩ := Option.map_eq_some_iff.mp (Except.ok.inj mapped)
  exact ⟨controlled, eq_ok_of_allowed allowed, rfl⟩

/-- Powers of well-formed gates are well-formed. -/
theorem wellFormed_of_pow {gate power : Gate R} {exponent : R} (wellFormed : gate.WellFormed)
    (raised : gate.pow exponent = .ok (some power)) : power.WellFormed := by
  match gate with
  | .angle family parameter =>
      obtain ⟨scaled, _, rfl⟩ := Option.map_eq_some_iff.mp (Except.ok.inj raised)
      trivial
  | .diagonal table =>
      cases raised
      trivial
  | .controlled sub condition shape =>
      rw [pow] at raised
      obtain ⟨subPower, subRaised, raised⟩ := bind_eq_ok_iff.mp raised
      cases subPower with
      | none => cases raised
      | some subPower =>
          obtain ⟨controlled, success, rfl⟩ := exists_of_allowed raised
          exact wellFormed_of_control (wellFormed_of_pow wellFormed.1 subRaised) success
  | .x | .cx | .matrix _ _ | .measurement _ _ | .bitFlip _ | .reset | .idle _ | .phaseFlip
  | .composite _ _ => cases raised

/-- The special forms are the exchange under one control and the controlled sign change. -/
theorem native_cases {gate special : Gate R} {count : Nat} {condition : Condition}
    {shape : List Nat} (found : gate.native count condition shape = .ok (some special)) :
    special = .cx ∨ gate = .phaseFlip ∧ ∃ controlled, Gate.phaseFlip.control
      { count := some count, condition := some condition, shape := some shape } = .ok controlled ∧
        controlled.toGate = special := by
  unfold native at found
  split at found
  case h_1 =>
    split at found
    case isTrue => exact .inl (Option.some.inj (Except.ok.inj found)).symm
    case isFalse => cases found
  case h_2 => exact .inr ⟨rfl, exists_of_allowed found⟩
  case h_3 => cases found

/-- The special form of a well-formed gate is well-formed. -/
theorem wellFormed_of_native {gate special : Gate R} {count : Nat} {condition : Condition}
    {shape : List Nat} (wellFormed : gate.WellFormed)
    (found : gate.native count condition shape = .ok (some special)) : special.WellFormed := by
  rcases native_cases found with rfl | ⟨rfl, controlled, success, rfl⟩
  · trivial
  · exact wellFormed_of_control wellFormed success

end Gate

/-! ## Resolution of symbols -/

mutual

/-- Resolution puts controls back in front of a resolved gate, where they are still valid. -/
theorem Gate.wellFormed_resolve {gate : Gate R} (wellFormed : gate.WellFormed) :
    (gate.resolve bindings recursive).WellFormed := by
  match gate with
  | .controlled sub condition shape =>
      obtain ⟨subWellFormed, _, unmeasured, positive, valid, simplified⟩ := wellFormed
      rw [Gate.resolve]
      apply Gate.wellFormed_flatten (sub.wellFormed_resolve subWellFormed)
      · rw [Gate.isMeasurement_resolve, unmeasured]
      · rwa [Gate.shape_resolve]
      · exact valid
      · exact simplified
  | .composite shape body => exact body.wellFormed_resolve wellFormed
  | .matrix entries shape => exact wellFormed
  | .x | .cx | .angle _ _ | .diagonal _ | .measurement _ _ | .bitFlip _ | .reset | .idle _
  | .phaseFlip => trivial

theorem Circuit.wellFormed_resolve {circuit : Circuit R} (wellFormed : circuit.WellFormed) :
    (circuit.resolve bindings recursive).WellFormed := by
  match circuit with
  | .done => trivial
  | .step gate positions rest =>
      exact ⟨gate.wellFormed_resolve wellFormed.1, rest.wellFormed_resolve wellFormed.2⟩

end

/-! ## Runs of operations -/

/-- Controls on an operation keep its gate well-formed. -/
theorem Operation.wellFormed_of_controlledBy {operation wrapped : Operation R}
    {controls : List Qudit} {condition : Option Condition}
    (wellFormed : operation.gate.WellFormed)
    (success : operation.controlledBy controls condition = .ok wrapped) :
    wrapped.gate.WellFormed := by
  unfold controlledBy at success
  split at success
  case isTrue =>
    cases success
    exact wellFormed
  case isFalse =>
    obtain ⟨gate, controlled, success⟩ := bind_eq_ok_iff.mp success
    obtain ⟨_, _, success⟩ := bind_eq_ok_iff.mp success
    cases success
    exact Gate.wellFormed_of_control wellFormed controlled

/-- What operations reach is well-formed. -/
theorem Gate.Reachable.wellFormed {gate : Gate R} (reached : gate.Reachable) :
    gate.WellFormed := by
  induction reached with
  | primitive plain => exact wellFormed_of_isPrimitive plain
  | matrix accepted => exact wellFormed_of_ofMatrix accepted
  | composite _ steps => exact Circuit.wellFormed_of_toList steps
  | control _ success ih => exact wellFormed_of_control ih success
  | rebuild _ success ih => exact wellFormed_of_control ih success
  | applied _ ih => exact ih.1
  | pow _ raised ih => exact wellFormed_of_pow ih raised
  | resolve bindings recursive _ ih => exact wellFormed_resolve ih
  | native _ found ih => exact wellFormed_of_native ih found
  | controlledBy _ success ih => exact Operation.wellFormed_of_controlledBy ih success
  | bound _ success ih =>
      -- The controls are as many qudits as the gate has controls, with their dimensions.
      rw [ControlledGate.gate_of_on success]
      exact ih

/-- **Controlled gates stay sound.** Whatever sequence of operations reaches a controlled
gate, its condition covers its controls and is valid for them, no qudit is without levels, the
gate it applies is neither controlled nor a measurement, and its condition is not a sum of a
single term. The same holds of every controlled gate inside the gate it applies. -/
theorem controlled_gates_stay_sound {gate : ControlledGate R} (reached : gate.toGate.Reachable) :
    gate.Sound ∧ ∀ part ∈ gate.sub.controlledParts, part.Sound := by
  have wellFormed := reached.wellFormed
  refine ⟨ControlledGate.sound_of_wellFormed wellFormed, ?_⟩
  intro part member
  exact Gate.sound_of_mem_controlledParts wellFormed.1 member

/-- A rotation about a symbol under a qutrit at level zero, under a qutrit and a qubit that are
at one of two assignments, after the symbol is resolved. -/
theorem controlled_gates_stay_sound_resolved :
    let either : Condition := .sum {
      width := 2
      terms := .ofList [.ofValues [0, 1], .ofValues [2, 0]]
      nonempty := by decide
      uniform := by decide }
    let rotation : ControlledGate Float :=
      ⟨.angle .rz (.value 0.5), either.combine (.product (.ofValues [0])), [3, 2, 3]⟩
    rotation.toGate.Reachable ∧ rotation.Sound := by
  intro either rotation
  let inner : ControlledGate Float :=
    ⟨.angle .rz (.symbol "a"), .product (.ofValues [0]), [3]⟩
  let outer : ControlledGate Float :=
    ⟨.angle .rz (.symbol "a"), either.combine (.product (.ofValues [0])), [3, 2, 3]⟩
  have innerBuilt : (Gate.angle .rz (.symbol "a")).control
      { condition := some (.product (.ofValues [0])), shape := some [3] } = .ok inner := rfl
  have outerBuilt : inner.toGate.control
      { condition := some either, shape := some [3, 2] } = .ok outer := rfl
  have reached : rotation.toGate.Reachable :=
    .resolve (.ofList [("a", .value 0.5)]) false (.control (.control (.primitive rfl) innerBuilt)
      outerBuilt)
  exact ⟨reached, (controlled_gates_stay_sound reached).1⟩

end QuditCircuits
