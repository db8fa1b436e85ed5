import QuditCircuits.DenseMatrix.Spectrum
import QuditCircuits.Gate.Parameters
import QuditCircuits.Gate.Unitary
import QuditCircuits.PhaseArc

/-!
# Controlled gates

A controlled gate is built from a gate and a `ControlRequest`, in which the number
of controls, the condition and the dimensions may each be left open. Building checks
the request in a fixed order and then absorbs the controls of a gate that is itself
controlled, so the applied gate is never controlled.
-/

namespace QuditCircuits

variable {R : Type}

/-- A gate applied when its controls satisfy a condition. -/
structure ControlledGate (R : Type) where
  sub : Gate R
  condition : Condition
  shape : List Nat

/-- What is asked of the controls of a gate. What is left open follows from the rest. -/
structure ControlRequest where
  count : Option Nat := none
  condition : Option Condition := none
  shape : Option (List Nat) := none

namespace ControlledGate

def toGate (gate : ControlledGate R) : Gate R :=
  .controlled gate.sub gate.condition gate.shape

/-- The controlled gate that a gate is, if it is one. -/
def ofGate? : Gate R → Option (ControlledGate R)
  | .controlled sub condition shape => some ⟨sub, condition, shape⟩
  | _ => none

/-- The number of controls. -/
def controlCount (gate : ControlledGate R) : Nat :=
  gate.shape.length

/-- Puts controls in front of a gate and absorbs the controls it already has. -/
def flatten (sub : Gate R) (condition : Condition) (shape : List Nat) : ControlledGate R :=
  match sub with
  | .controlled inner innerCondition innerShape =>
      ⟨inner, condition.combine innerCondition, shape ++ innerShape⟩
  | sub => ⟨sub, condition, shape⟩

/-- Whether two controlled gates are stored alike. -/
def same [Scalar R] (first second : ControlledGate R) : Bool :=
  first.toGate.same second.toGate

end ControlledGate

namespace ControlRequest

/-- The number of bytes of a dimension. -/
def dimensionWidth : Nat := 8

/-- The number of controls asked for: as given, else as the condition or the shape
say, else one. -/
def impliedCount (request : ControlRequest) : Nat :=
  match request.count, request.condition, request.shape with
  | some count, _, _ => count
  | none, some condition, _ => condition.width
  | none, none, some shape => shape.length
  | none, none, none => 1

/-- The condition asked for: as given, else level one for every control. -/
def impliedCondition (request : ControlRequest) : Except Fault Condition :=
  match request.condition with
  | some condition => .ok condition.simplified
  | none => return .product (← Conjunction.ones? request.impliedCount)

/-- The dimensions asked for: as given, else qubits. -/
def impliedShape (request : ControlRequest) : Except Fault (List Nat) :=
  match request.shape with
  | some shape => .ok shape
  | none => do
      Machine.reserve request.impliedCount dimensionWidth
      return List.replicate request.impliedCount 2

end ControlRequest

variable [Scalar R]

namespace Gate

/-- Checks that a gate may be controlled: it is no measurement, and it is a mixture
of unitaries or may still become one. -/
def checkControllable (sub : Gate R) : GateResult R Unit := do
  demand (!sub.isMeasurement) (.measurementSubGate sub)
  let mixes ← sub.hasMixture
  demand (mixes || sub.isParameterized) (.nonUnitarySubGate sub)

/-- Checks that no control and no target is without levels. -/
def checkLevels (sub : Gate R) (shape : List Nat) : GateResult R Unit :=
  match (shape ++ sub.shape).findIdx? (· == 0) with
  | some position => .error (.zeroDimension sub position)
  | none => .ok ()

/-- Builds a controlled gate. -/
def control (sub : Gate R) (request : ControlRequest) : GateResult R (ControlledGate R) := do
  sub.checkControllable
  let count := request.impliedCount
  let condition ← request.impliedCondition
  demand (condition.width == count) (.controlCount count condition.width)
  let shape ← request.impliedShape
  demand (shape.length == count) (.shapeLength count shape.length)
  sub.checkLevels shape
  condition.validate shape
  return .flatten sub condition shape

end Gate

namespace ControlledGate

/-- Builds the gate again from its parts, which may have been changed. -/
def rebuild (parts : ControlledGate R) : GateResult R (ControlledGate R) :=
  parts.sub.control { condition := some parts.condition, shape := some parts.shape }

/-- A bound on the trace distance between input and output, for a gate whose applied
gate has a matrix and no symbols. Where the condition fails nothing is moved, which
adds the phase zero. -/
def traceDistanceBound (gate : ControlledGate R) : Except Fault (Option R) := do
  if gate.sub.isParameterized then return none
  match ← gate.sub.unitary with
  | none => return none
  | some matrix =>
      match ← matrix.eigenphases with
      | none => return none
      | some phases => return some (PhaseArc.traceDistanceBound (phases ++ [0]))

end ControlledGate

end QuditCircuits
