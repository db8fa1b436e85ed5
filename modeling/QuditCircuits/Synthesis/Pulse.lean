import QuditCircuits.DenseMatrix.Closeness
import QuditCircuits.DenseMatrix.Euler
import QuditCircuits.DenseMatrix.SquareRoot
import QuditCircuits.Gate.Derived
import QuditCircuits.Synthesis.Rotation

/-!
# Elementary pulses of controlled operators

A 2×2 unitary matrix under one control becomes turns of the target around two exchanges
and a phase of the control: the turns cancel unless the exchanges take place.
Without controls the matrix is applied as it is. `synthesize` puts this together
with the square-root construction and yields operations on qubits.
-/

namespace QuditCircuits

/-- An elementary action on one or two qubits. -/
inductive Pulse (R Q : Type) where
  /-- An explicit matrix. -/
  | matrix (entries : Unitary R) (target : Q)
  | flip (target : Q)
  | cnot (control target : Q)
  /-- A gate with one angle. -/
  | turn (family : AngleFamily) (angle : R) (target : Q)

namespace Pulse

variable {R Q : Type} [Scalar R]

/-- A turn, left out if its angle is within the tolerance of zero. -/
def turnUnlessSmall (tolerance : R) (family : AngleFamily) (angle : R) (target : Q) :
    List (Pulse R Q) :=
  if Scalar.lt tolerance (Scalar.abs angle) then [.turn family angle target] else []

/-- The matrix with the given Euler angles under one control. -/
def controlledTurns (tolerance : R) (angles : EulerAngles R) (control target : Q) :
    List (Pulse R Q) :=
  turnUnlessSmall tolerance .rz ((angles.delta - angles.beta) / Scalar.two) target ++
  .cnot control target ::
  turnUnlessSmall tolerance .rz (-(angles.delta + angles.beta) / Scalar.two) target ++
  turnUnlessSmall tolerance .ry (-angles.gamma / Scalar.two) target ++
  .cnot control target ::
  turnUnlessSmall tolerance .ry (angles.gamma / Scalar.two) target ++
  turnUnlessSmall tolerance .rz angles.beta target ++
  turnUnlessSmall tolerance .phaseShift angles.alpha control

end Pulse

variable {R : Type} [Scalar R]

instance : RootedOperator (Unitary R) where
  root := DenseMatrix.squareRoot
  adjoint := DenseMatrix.adjoint
  flip := Unitary.flip

/-- The pulses of an operator under at most one control. A controlled matrix that is
close to the exchange of levels is an exchange. -/
def RotationStep.pulses {Q : Type} (tolerance : R) :
    RotationStep (Unitary R) Q → List (Pulse R Q)
  | .apply matrix target => [.matrix matrix target]
  | .applyIf matrix control target =>
      if DenseMatrix.close tolerance matrix Unitary.flip then [.cnot control target]
      else Pulse.controlledTurns tolerance (EulerAngles.ofMatrix matrix) control target
  | .flip target => [.flip target]
  | .cnot control target => [.cnot control target]

/-- The gate of a pulse and the qudits it is applied to. An explicit matrix that is
not unitary is left out. -/
def Pulse.operation? : Pulse R Qudit → GateResult R (Option (Operation R))
  | .matrix entries target => do
      match ← Gate.ofMatrix? entries [2] with
      | some gate => return some (← gate.on [target])
      | none => return none
  | .flip target => do return some (← Gate.x.on [target])
  | .cnot control target => do return some (← Gate.cx.on [control, target])
  | .turn family angle target => do
      return some (← (Gate.angle family (.value angle)).on [target])

/-- Operations that apply a 2×2 unitary matrix to the target if all controls are at
level one. Turns within the tolerance of zero are left out. -/
def synthesize (matrix : Unitary R) (controls : List Qudit) (target : Qudit) (tolerance : R) :
    GateResult R (List (Operation R)) := do
  if !controls.isEmpty then matrix.requireCorner
  let steps ← RotationStep.rotate matrix controls target []
  let pulses := steps.flatMap (RotationStep.pulses tolerance)
  return (← pulses.mapM Pulse.operation?).filterMap id

end QuditCircuits
