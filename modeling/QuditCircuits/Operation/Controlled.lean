import QuditCircuits.Gate.Controlled

/-!
# Controlled operations

A controlled operation keeps its controls apart from the operation they guard. It
comes from applying a controlled gate to qudits, and can be read as an ordinary
operation. Adding controls to an operation builds a controlled gate for it.
-/

namespace QuditCircuits

variable {R : Type} [Scalar R]

/-- An operation guarded by a condition on control qudits. -/
structure ControlledOperation (R : Type) where
  controls : List Qudit
  sub : Operation R
  condition : Condition

namespace ControlledOperation

/-- All qudits, controls first. -/
def qudits (operation : ControlledOperation R) : List Qudit :=
  operation.controls ++ operation.sub.qudits

/-- The controlled gate that is applied; the dimensions of its controls are those of
the control qudits. -/
def gate (operation : ControlledOperation R) : ControlledGate R :=
  ⟨operation.sub.gate, operation.condition, Qudit.dimensions operation.controls⟩

/-- The controlled operation as an operation. -/
def toOperation (operation : ControlledOperation R) : Operation R :=
  ⟨operation.gate.toGate, operation.qudits⟩

/-- The matrix over controls and targets: that of the guarded operation where the
condition holds, and the identity elsewhere. -/
def unitary (operation : ControlledOperation R) : Except Fault (Option (Unitary R)) := do
  match ← operation.sub.gate.unitary with
  | none => return none
  | some matrix =>
      return some (← Register.controlledEmbedding DenseMatrix.amplitudeWidth
        (Qudit.dimensions operation.controls) operation.condition matrix)

/-- The operation as a mixture; its probabilities are those of the guarded one. -/
def mixture (operation : ControlledOperation R) :
    Except Fault (Option (List (R × Unitary R))) := do
  match ← operation.sub.gate.mixture with
  | none => return none
  | some parts =>
      return some (← parts.mapM fun part => do
        return (part.1, ← Register.controlledEmbedding DenseMatrix.amplitudeWidth
          (Qudit.dimensions operation.controls) operation.condition part.2))

/-- Whether two controlled operations are stored alike. -/
def same (first second : ControlledOperation R) : Bool :=
  first.controls == second.controls && first.sub.same second.sub &&
    first.condition == second.condition

omit [Scalar R] in
/-- The condition and the guarded gate, followed by all qudits. -/
def text [Written R] (operation : ControlledOperation R) : String :=
  Text.call (operation.condition.text ++ operation.sub.gate.text)
    (Qudit.lineText operation.qudits)

end ControlledOperation

namespace ControlledGate

/-- Splits qudits that match the shape of a controlled gate into controls and
targets. -/
def bind (gate : ControlledGate R) (qudits : List Qudit) : ControlledOperation R :=
  ⟨qudits.take gate.controlCount, ⟨gate.sub, qudits.drop gate.controlCount⟩, gate.condition⟩

/-- Applies a controlled gate to qudits, controls first. -/
def on (gate : ControlledGate R) (qudits : List Qudit) :
    GateResult R (ControlledOperation R) := do
  demand (!qudits.isEmpty) (.emptyApplication gate.toGate)
  gate.toGate.checkQudits qudits
  return gate.bind qudits

end ControlledGate

/-- Adds controls in front of the qudits of an operation. Without a condition each
control must be at level one. No controls leave the operation as it is. -/
def Operation.controlledBy (operation : Operation R) (controls : List Qudit)
    (condition : Option Condition) : GateResult R (Operation R) :=
  if controls.isEmpty then .ok operation
  else do
    let gate ← operation.gate.control {
      count := some controls.length
      condition
      shape := some (Qudit.dimensions controls) }
    Operation.make gate.toGate (controls ++ operation.qudits)

end QuditCircuits
