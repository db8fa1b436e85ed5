import QuditCircuits.Proofs.Gate.Capabilities
import QuditCircuits.Proofs.Parameter.Chains

/-!
# Symbols of resolved gates

Resolution replaces the parameters of a gate one by one, wherever they are, and nothing else about
the gate changes (`Gate.resolve_eq_mapParameters`): a resolved gate is not controlled if the gate
was not, so the controls in front of it are not joined with others. What a symbol is replaced by
names the symbols that are left (`Gate.symbols_resolve`). Resolving until the end leaves parameters
that are not replaced again, so resolving once more gives the same gate (`Gate.resolve_resolve`).
-/

namespace QuditCircuits

variable {R : Type} {bindings : Bindings R} {recursive : Bool}

/-- The names of a resolved parameter are those that its own symbol is replaced by. -/
theorem Parameter.names_resolve (parameter : Parameter R) :
    (bindings.resolve parameter recursive).names =
      parameter.names.filterMap fun name =>
        (bindings.resolve (.symbol name) recursive).symbol? := by
  cases parameter with
  | value number =>
      rw [Bindings.resolve_value]
      rfl
  | symbol name =>
      rw [names, names, symbol?, Option.toList_some, List.filterMap_cons, List.filterMap_nil]
      cases (bindings.resolve (.symbol name) recursive).symbol? <;> rfl

theorem Gate.symbols_flatten (gate : Gate R) (condition : Condition) (shape : List Nat) :
    (ControlledGate.flatten gate condition shape).toGate.symbols = gate.symbols := by
  cases controlled : gate.isControlled with
  | false => rw [flatten_of_not_isControlled controlled, ControlledGate.toGate, symbols]
  | true =>
      obtain ⟨sub, inner, innerShape, rfl⟩ := exists_of_isControlled controlled
      rfl

mutual

/-- The symbols of a resolved gate are what the symbols of the gate are replaced by, in order. -/
theorem Gate.symbols_resolve (gate : Gate R) :
    (gate.resolve bindings recursive).symbols =
      gate.symbols.filterMap fun name => (bindings.resolve (.symbol name) recursive).symbol? := by
  match gate with
  | .angle family parameter => exact parameter.names_resolve
  | .controlled sub condition shape =>
      rw [Gate.resolve, Gate.symbols_flatten, sub.symbols_resolve, Gate.symbols]
  | .composite shape body => exact body.symbols_resolve
  | .x | .cx | .diagonal _ | .matrix _ _ | .measurement _ _ | .bitFlip _ | .reset | .idle _
  | .phaseFlip => rfl

theorem Circuit.symbols_resolve (circuit : Circuit R) :
    (circuit.resolve bindings recursive).symbols =
      circuit.symbols.filterMap fun name =>
        (bindings.resolve (.symbol name) recursive).symbol? := by
  match circuit with
  | .done => rfl
  | .step gate positions rest =>
      rw [Circuit.resolve, Circuit.symbols, Circuit.symbols, gate.symbols_resolve,
        rest.symbols_resolve, List.filterMap_append]

end

/-- The names of a resolved gate are the symbols that the names of the gate are replaced by. -/
theorem Gate.parameterNames_resolve (gate : Gate R) :
    (gate.resolve bindings recursive).parameterNames =
      .ofList (gate.parameterNames.toList.filterMap fun name =>
        (bindings.resolve (.symbol name) recursive).symbol?) := by
  apply Ascending.ext_mem
  intro name
  simp only [parameterNames, Ascending.mem_ofList, symbols_resolve, List.mem_filterMap]

/-! ## Other parameters -/

mutual

/-- The gate with every parameter transformed, and everything else as it is. -/
def Gate.mapParameters (transform : Parameter R → Parameter R) : Gate R → Gate R
  | .angle family parameter => .angle family (transform parameter)
  | .controlled sub condition shape => .controlled (sub.mapParameters transform) condition shape
  | .composite shape body => .composite shape (body.mapParameters transform)
  | .x => .x
  | .cx => .cx
  | .diagonal table => .diagonal table
  | .matrix entries shape => .matrix entries shape
  | .measurement key shape => .measurement key shape
  | .bitFlip probability => .bitFlip probability
  | .reset => .reset
  | .idle shape => .idle shape
  | .phaseFlip => .phaseFlip

/-- The circuit with every parameter of its gates transformed. -/
def Circuit.mapParameters (transform : Parameter R → Parameter R) : Circuit R → Circuit R
  | .done => .done
  | .step gate positions rest =>
      .step (gate.mapParameters transform) positions (rest.mapParameters transform)

end

mutual

/-- One transformation after another. -/
theorem Gate.mapParameters_mapParameters (first second : Parameter R → Parameter R)
    (gate : Gate R) :
    (gate.mapParameters first).mapParameters second =
      gate.mapParameters fun parameter => second (first parameter) := by
  match gate with
  | .controlled sub condition shape =>
      exact congrArg (Gate.controlled · condition shape)
        (sub.mapParameters_mapParameters first second)
  | .composite shape body =>
      exact congrArg (Gate.composite shape) (body.mapParameters_mapParameters first second)
  | .x | .cx | .angle _ _ | .diagonal _ | .matrix _ _ | .measurement _ _ | .bitFlip _ | .reset
  | .idle _ | .phaseFlip => rfl

/-- Parameters that are changed twice are changed by both changes at once. -/
theorem Circuit.mapParameters_mapParameters (first second : Parameter R → Parameter R)
    (circuit : Circuit R) :
    (circuit.mapParameters first).mapParameters second =
      circuit.mapParameters fun parameter => second (first parameter) := by
  match circuit with
  | .done => rfl
  | .step gate positions rest =>
      rw [Circuit.mapParameters, Circuit.mapParameters,
        gate.mapParameters_mapParameters first second,
        rest.mapParameters_mapParameters first second, Circuit.mapParameters]

end

variable [Scalar R]

mutual

/-- Resolution replaces the parameters of a gate, and nothing else. -/
theorem Gate.resolve_eq_mapParameters {gate : Gate R} (wellFormed : gate.WellFormed) :
    gate.resolve bindings recursive = gate.mapParameters (bindings.resolve · recursive) := by
  match gate with
  | .controlled sub condition shape =>
      obtain ⟨subWellFormed, uncontrolled, -⟩ := wellFormed
      have kept : (sub.resolve bindings recursive).isControlled = false :=
        sub.isControlled_resolve.trans uncontrolled
      rw [Gate.resolve, Gate.flatten_of_not_isControlled kept, ControlledGate.toGate,
        sub.resolve_eq_mapParameters subWellFormed, Gate.mapParameters]
  | .composite shape body =>
      exact congrArg (Gate.composite shape) (body.resolve_eq_mapParameters wellFormed)
  | .x | .cx | .angle _ _ | .diagonal _ | .matrix _ _ | .measurement _ _ | .bitFlip _ | .reset
  | .idle _ | .phaseFlip => rfl

/-- To resolve a well-formed circuit is to resolve its parameters. -/
theorem Circuit.resolve_eq_mapParameters {circuit : Circuit R} (wellFormed : circuit.WellFormed) :
    circuit.resolve bindings recursive =
      circuit.mapParameters (bindings.resolve · recursive) := by
  match circuit with
  | .done => rfl
  | .step gate positions rest =>
      rw [Circuit.resolve, gate.resolve_eq_mapParameters wellFormed.1,
        rest.resolve_eq_mapParameters wellFormed.2, Circuit.mapParameters]

end

/-- A gate that was resolved until the end is not resolved any further. -/
theorem Gate.resolve_resolve {gate : Gate R} (wellFormed : gate.WellFormed) :
    (gate.resolve bindings true).resolve bindings true = gate.resolve bindings true := by
  rw [resolve_eq_mapParameters (wellFormed_resolve wellFormed),
    resolve_eq_mapParameters wellFormed, mapParameters_mapParameters]
  exact congrArg (gate.mapParameters ·) (funext bindings.resolve_resolve)

/-- **Resolution follows the parameters.** Whatever sequence of operations reaches a gate,
resolution replaces its parameters and nothing else. It keeps the qudits of the gate, whether it is
a measurement, and its controls if it has any. The names of the resolved gate are exactly the
symbols that its names are replaced by. A gate without names stays as it is, and a gate that was
resolved until the end, too. -/
theorem resolution_follows_parameters {gate : Gate R} (reached : gate.Reachable)
    (bindings : Bindings R) (recursive : Bool) :
    gate.resolve bindings recursive = gate.mapParameters (bindings.resolve · recursive) ∧
    (gate.resolve bindings recursive).shape = gate.shape ∧
    (gate.resolve bindings recursive).isMeasurement = gate.isMeasurement ∧
    (∀ sub condition shape, gate = .controlled sub condition shape →
      gate.resolve bindings recursive =
        .controlled (sub.resolve bindings recursive) condition shape) ∧
    (gate.resolve bindings recursive).parameterNames =
      .ofList (gate.parameterNames.toList.filterMap fun name =>
        (bindings.resolve (.symbol name) recursive).symbol?) ∧
    (gate.parameterNames.toList = [] → gate.resolve bindings recursive = gate) ∧
    (gate.resolve bindings true).resolve bindings true = gate.resolve bindings true := by
  refine ⟨Gate.resolve_eq_mapParameters reached.wellFormed, gate.shape_resolve,
    gate.isMeasurement_resolve, ?_, gate.parameterNames_resolve, ?_,
    Gate.resolve_resolve reached.wellFormed⟩
  · intro sub condition shape same
    subst same
    have kept : (⟨sub, condition, shape⟩ : ControlledGate R).toGate.resolve bindings recursive =
        _ := ControlledGate.resolve_toGate reached.wellFormed.2.1
    exact kept
  · intro unnamed
    apply Gate.resolve_of_not_isParameterized reached.wellFormed
    rw [← Bool.not_eq_true, Gate.isParameterized_iff_parameterNames, not_not]
    exact unnamed

/-- A circuit of two rotations under a qutrit: one symbol leads to another and from there to a
number, the other leads to a third that is free. -/
theorem resolution_follows_parameters_circuit :
    let circuit : Gate Float := .composite [2] (.step (.angle .rz (.symbol "a")) [0]
      (.step (.angle .ry (.symbol "c")) [0] .done))
    let gate : Gate Float := .controlled circuit (.product (.ofValues [2])) [3]
    let bindings : Bindings Float :=
      .ofList [("a", .symbol "b"), ("b", .value 1), ("c", .symbol "d")]
    gate.Reachable ∧ gate.resolve bindings true =
        .controlled (circuit.resolve bindings true) (.product (.ofValues [2])) [3] ∧
      (gate.resolve bindings true).parameterNames = .ofList ["d"] ∧
      (gate.resolve bindings false).parameterNames = .ofList ["b", "d"] := by
  intro circuit gate bindings
  have steps : circuit.Reachable := by
    apply Gate.Reachable.composite
    refine List.forall_mem_cons.mpr ⟨.primitive rfl, List.forall_mem_singleton.mpr ?_⟩
    exact .primitive rfl
  have built : circuit.control
      { condition := some (.product (.ofValues [2])), shape := some [3] } =
        .ok ⟨circuit, .product (.ofValues [2]), [3]⟩ := rfl
  have reached : gate.Reachable := .control steps built
  obtain ⟨-, -, -, controls, names, -⟩ := resolution_follows_parameters reached bindings true
  obtain ⟨-, -, -, -, once, -⟩ := resolution_follows_parameters reached bindings false
  refine ⟨reached, controls _ _ _ rfl, names.trans (congrArg _ ?_), once.trans (congrArg _ ?_)⟩
  · subst gate bindings circuit
    decide +kernel
  · subst gate bindings circuit
    decide +kernel

end QuditCircuits
