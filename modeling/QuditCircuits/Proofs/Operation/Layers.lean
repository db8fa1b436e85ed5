import QuditCircuits.Operation.Controlled
import QuditCircuits.Proofs.Gate.Admission

/-!
# Layers of controls

Controls can be put in front of a gate or an operation in several steps. Every step
simplifies its condition, checks it against the gate that the earlier steps have left, and
absorbs the controls it finds. No controls at all leave an operation as it is. The result is
that of a single step with all the controls and the combined condition, layer by layer
(`Operation.controlledBy_layers_iff`) and for any number of layers
(`Operation.controlledByAll_eq_ok_iff`).
-/

namespace QuditCircuits

variable {R : Type} [Scalar R]

namespace Gate

/-- Two requests in sequence are granted if the gate admits both layers of controls. -/
theorem control_layers_eq_ok_iff {gate : Gate R} {outer inner : Condition}
    {outerShape innerShape : List Nat} {built : ControlledGate R} :
    (gate.control { condition := some inner, shape := some innerShape } >>= fun layer =>
        layer.toGate.control { condition := some outer, shape := some outerShape }) = .ok built ↔
      (gate.Admits inner innerShape ∧
        (ControlledGate.flatten gate inner.simplified innerShape).toGate.Admits outer
          outerShape) ∧
        ControlledGate.flatten gate (outer.combine inner).simplified (outerShape ++ innerShape) =
          built := by
  have agrees (shape : List Nat) : (none : Option Nat).getD shape.length = shape.length := rfl
  simp only [bind_eq_ok_iff, control_eq_ok_iff_admits (agrees _)]
  constructor
  · rintro ⟨_, ⟨innerAdmits, rfl⟩, outerAdmits, rfl⟩
    exact ⟨⟨innerAdmits, outerAdmits⟩, ControlledGate.flatten_flatten.symm⟩
  · rintro ⟨⟨innerAdmits, outerAdmits⟩, rfl⟩
    exact ⟨_, ⟨innerAdmits, rfl⟩, outerAdmits, ControlledGate.flatten_flatten⟩

end Gate

namespace Operation

variable {operation wrapped : Operation R} {outerControls innerControls : List Qudit}
  {outer inner : Condition}

/-- Controls in front of a gate and of its qudits match if the gate matches its qudits. -/
theorem shape_flatten_eq_dimensions_iff {R : Type} {gate : Gate R} {condition : Condition}
    {controls qudits : List Qudit} :
    (ControlledGate.flatten gate condition (Qudit.dimensions controls)).toGate.shape =
        Qudit.dimensions (controls ++ qudits) ↔
      gate.shape = Qudit.dimensions qudits := by
  rw [Gate.shape_flatten, Qudit.dimensions_append, List.append_cancel_left_eq]

/-- Controls are added to an operation if its gate admits them and has its qudits' dimensions. -/
theorem controlledBy_eq_ok_iff {controls : List Qudit} {condition : Condition}
    (occupied : controls ≠ []) :
    operation.controlledBy controls (some condition) = .ok wrapped ↔
      operation.gate.Admits condition (Qudit.dimensions controls) ∧
        operation.gate.shape = Qudit.dimensions operation.qudits ∧
          (⟨(ControlledGate.flatten operation.gate condition.simplified
            (Qudit.dimensions controls)).toGate, controls ++ operation.qudits⟩ : Operation R) =
              wrapped := by
  have occupied : controls.isEmpty = false := by simpa using occupied
  have agrees : (some controls.length).getD (Qudit.dimensions controls).length =
      (Qudit.dimensions controls).length := (List.length_map _).symm
  simp only [controlledBy, occupied, Bool.false_eq_true, if_false, bind_eq_ok_iff,
    Gate.control_eq_ok_iff_admits agrees, make_eq_ok_iff]
  constructor
  · rintro ⟨_, ⟨admits, rfl⟩, dimensions, rfl⟩
    exact ⟨admits, shape_flatten_eq_dimensions_iff.mp dimensions, rfl⟩
  · rintro ⟨admits, dimensions, rfl⟩
    exact ⟨_, ⟨admits, rfl⟩, shape_flatten_eq_dimensions_iff.mpr dimensions, rfl⟩

/-- A condition counts as simplified when controls are added. -/
theorem controlledBy_simplified {controls : List Qudit} {condition : Condition} :
    operation.controlledBy controls (some condition.simplified) =
      operation.controlledBy controls (some condition) := by
  unfold controlledBy Gate.control
  simp only [ControlRequest.impliedCount, ControlRequest.impliedCondition,
    ControlRequest.impliedShape, Condition.simplified_simplified]

/-- **Two layers of controls are one.** Controls with conditions on exactly them, added one
layer after the other, are added together with the combined condition. -/
theorem controlledBy_layers_iff (outerWidth : outer.width = outerControls.length)
    (innerWidth : inner.width = innerControls.length) :
    (operation.controlledBy innerControls (some inner) >>= fun layer =>
        layer.controlledBy outerControls (some outer)) = .ok wrapped ↔
      operation.controlledBy (outerControls ++ innerControls) (some (outer.combine inner)) =
        .ok wrapped := by
  cases innerControls with
  | nil =>
      rw [List.append_nil, Condition.combine_of_width_eq_zero innerWidth, controlledBy_simplified]
      rfl
  | cons innerControl innerControls =>
      cases outerControls with
      | nil =>
          rw [List.nil_append, Condition.combine_of_width_eq_zero_left outerWidth,
            controlledBy_simplified]
          exact (congrArg (· = _) (bind_pure _)).to_iff
      | cons outerControl outerControls =>
          have length : outer.width = (Qudit.dimensions (outerControl :: outerControls)).length :=
            outerWidth.trans (List.length_map _).symm
          simp only [bind_eq_ok_iff, controlledBy_eq_ok_iff (List.cons_ne_nil _ _)]
          rw [controlledBy_eq_ok_iff (by simp), Qudit.dimensions_append,
            ← Gate.admits_layers_iff length, ← ControlledGate.flatten_flatten, List.append_assoc]
          constructor
          · rintro ⟨_, ⟨innerAdmits, dimensions, rfl⟩, outerAdmits, -, rfl⟩
            exact ⟨⟨innerAdmits, outerAdmits⟩, dimensions, rfl⟩
          · rintro ⟨⟨innerAdmits, outerAdmits⟩, dimensions, rfl⟩
            exact ⟨_, ⟨innerAdmits, dimensions, rfl⟩, outerAdmits,
              shape_flatten_eq_dimensions_iff.mpr dimensions, rfl⟩

/-- Layers of controls, the outermost first. -/
abbrev Layers : Type := List (List Qudit × Condition)

namespace Layers

/-- The controls of all layers. -/
def controls (layers : Layers) : List Qudit :=
  layers.flatMap Prod.fst

/-- The condition of all layers. -/
def condition (layers : Layers) : Condition :=
  layers.foldr (fun layer inner => layer.2.combine inner) (.product (.ones 0))

/-- Layers whose conditions cover their controls combine to a condition that covers all of them. -/
theorem width_condition {layers : Layers}
    (covered : ∀ layer ∈ layers, layer.2.width = layer.1.length) :
    layers.condition.width = layers.controls.length := by
  induction layers with
  | nil => rfl
  | cons layer layers ih =>
      obtain ⟨here, rest⟩ := List.forall_mem_cons.mp covered
      change (layer.2.combine (condition layers)).width = (layer.1 ++ controls layers).length
      rw [Condition.width_combine, here, ih rest, List.length_append]

end Layers

/-- Adds layers of controls one after the other, the innermost first. -/
def controlledByAll (operation : Operation R) : Layers → GateResult R (Operation R)
  | [] => .ok operation
  | layer :: layers => do
      (← operation.controlledByAll layers).controlledBy layer.1 (some layer.2)

/-- **Any number of layers is one.** Adding layers of controls one after the other is adding
all controls with the condition of all layers. -/
theorem controlledByAll_eq_ok_iff {layers : Layers}
    (covered : ∀ layer ∈ layers, layer.2.width = layer.1.length) :
    operation.controlledByAll layers = .ok wrapped ↔
      operation.controlledBy layers.controls (some layers.condition) = .ok wrapped := by
  induction layers generalizing wrapped with
  | nil => rfl
  | cons layer layers ih =>
      obtain ⟨here, rest⟩ := List.forall_mem_cons.mp covered
      change _ ↔ operation.controlledBy (layer.1 ++ Layers.controls layers)
        (some (layer.2.combine (Layers.condition layers))) = .ok wrapped
      rw [← controlledBy_layers_iff here (Layers.width_condition rest), controlledByAll]
      simp only [bind_eq_ok_iff, ih rest]

end Operation

/-- **Controls in layers are combined controls.** Building a controlled gate around a controlled
gate yields what building it once under the combined condition yields; where the outer condition
covers its shape the two succeed alike. Adding controls to an operation in two steps, or in any
number of them, succeeds exactly when adding all of them under the combined condition does, and
with the same operation, whatever the gate and whichever layers are without controls. -/
theorem controls_in_layers_are_combined :
    (∀ (gate : Gate R) (outer inner : Condition) (outerShape innerShape : List Nat)
      (built : ControlledGate R),
      (gate.control { condition := some inner, shape := some innerShape } >>= fun layer =>
        layer.toGate.control { condition := some outer, shape := some outerShape }) = .ok built →
      gate.control { condition := some (outer.combine inner),
                     shape := some (outerShape ++ innerShape) } = .ok built) ∧
    (∀ (gate : Gate R) (outer inner : Condition) (outerShape innerShape : List Nat)
      (built : ControlledGate R),
      outer.width = outerShape.length → inner.width = innerShape.length →
      gate.control { condition := some (outer.combine inner),
                     shape := some (outerShape ++ innerShape) } = .ok built →
      (gate.control { condition := some inner, shape := some innerShape } >>= fun layer =>
        layer.toGate.control { condition := some outer, shape := some outerShape }) =
          .ok built) ∧
    (∀ (operation wrapped : Operation R) (outerControls innerControls : List Qudit)
      (outer inner : Condition),
      outer.width = outerControls.length → inner.width = innerControls.length →
      ((operation.controlledBy innerControls (some inner) >>= fun layer =>
          layer.controlledBy outerControls (some outer)) = .ok wrapped ↔
        operation.controlledBy (outerControls ++ innerControls) (some (outer.combine inner)) =
          .ok wrapped)) ∧
    (∀ (operation wrapped : Operation R) (layers : Operation.Layers),
      (∀ layer ∈ layers, layer.2.width = layer.1.length) →
      (operation.controlledByAll layers = .ok wrapped ↔
        operation.controlledBy layers.controls (some layers.condition) = .ok wrapped)) := by
  have agrees (shape : List Nat) : (none : Option Nat).getD shape.length = shape.length := rfl
  refine ⟨?_, ?_, ?_, ?_⟩
  · intro gate outer inner outerShape innerShape built success
    obtain ⟨⟨innerAdmits, outerAdmits⟩, flat⟩ := Gate.control_layers_eq_ok_iff.mp success
    have length := (Condition.length_eq_of_validate outerAdmits.valid).symm
    exact (Gate.control_eq_ok_iff_admits (agrees _)).mpr
      ⟨(Gate.admits_layers_iff length).mp ⟨innerAdmits, outerAdmits⟩, flat⟩
  · intro gate outer inner outerShape innerShape built outerWidth _ success
    obtain ⟨admits, flat⟩ := (Gate.control_eq_ok_iff_admits (agrees _)).mp success
    exact Gate.control_layers_eq_ok_iff.mpr ⟨(Gate.admits_layers_iff outerWidth).mpr admits, flat⟩
  · intro operation wrapped outerControls innerControls outer inner outerWidth innerWidth
    exact Operation.controlledBy_layers_iff outerWidth innerWidth
  · intro operation wrapped layers covered
    exact Operation.controlledByAll_eq_ok_iff covered

/-- A rotation about a symbol under a qutrit and a qubit that are at one of two assignments,
then under a qubit with a sum of a single term, with and without an empty layer in between. -/
theorem controls_in_layers_are_combined_single :
    let single : Condition := .sum (.singleton (.ofValues [1]))
    let either : Condition := .sum {
      width := 2
      terms := .ofList [.ofValues [0, 1], .ofValues [2, 0]]
      nonempty := by decide
      uniform := by decide }
    let pair : List Qudit := [⟨1, 3, by decide⟩, .qubit 2]
    let rotation : Operation Float := ⟨.angle .rz (.symbol "a"), [.qubit 0]⟩
    ∃ built wrapped,
      (rotation.gate.control { condition := some either, shape := some [3, 2] } >>= fun layer =>
        layer.toGate.control { condition := some single, shape := some [2] }) = .ok built ∧
      rotation.gate.control
        { condition := some (single.combine either), shape := some [2, 3, 2] } = .ok built ∧
      rotation.controlledByAll [([.qubit 3], single), ([], .product (.ones 0)), (pair, either)] =
        .ok wrapped ∧
      (rotation.controlledBy pair (some either) >>= fun layer =>
        layer.controlledBy [.qubit 3] (some single)) = .ok wrapped ∧
      rotation.controlledBy (.qubit 3 :: pair) (some (single.combine either)) = .ok wrapped := by
  intro single either pair rotation
  obtain ⟨once, twice, operations, layers⟩ := controls_in_layers_are_combined (R := Float)
  have built := once rotation.gate single either [2] [3, 2] _ rfl
  have wrapped := (operations rotation _ [.qubit 3] pair single either rfl rfl).mp rfl
  refine ⟨_, _, twice rotation.gate single either [2] [3, 2] _ rfl rfl built, built, ?_, rfl,
    wrapped⟩
  refine (layers rotation _ [([.qubit 3], single), ([], .product (.ones 0)), (pair, either)]
    ?_).mpr wrapped
  decide

end QuditCircuits
