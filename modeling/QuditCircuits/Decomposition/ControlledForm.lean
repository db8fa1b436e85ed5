import QuditCircuits.Gate.Derived
import QuditCircuits.Operation.Controlled

/-!
# Elementary forms of controlled gates

A controlled gate on qubits whose applied gate cannot be taken apart further has an
elementary form if the applied gate acts on no qudit or on one. A controlled phase is
a table of phases over the controls. A controlled rotation under a product condition
becomes one under controls at level one: controls that accept only level zero are
flipped before and after, and controls that accept both levels are left out.
-/

namespace QuditCircuits

variable {R : Type} [Scalar R]

namespace Register

/-- The number of bytes of a phase angle. -/
def angleWidth : Nat := 8

/-- Replaces the angle at an index that must lie inside the table. -/
def setAngle (angles : Array R) (index : Nat) (angle : R) : Except Fault (Array R) :=
  if inside : index < angles.size then .ok (angles.set index angle)
  else .error .indexOutOfRange

/-- The table over a register with the given angle at the accepted assignments and
zero elsewhere. -/
def phaseAngles (shape : List Nat) (condition : Condition) (angle : R) :
    Except Fault (Array R) := do
  let size ← Machine.product shape
  Machine.reserve size angleWidth
  condition.expand.foldlM
    (fun angles assignment => do setAngle angles (← flatIndex assignment shape) angle)
    (Array.replicate size 0)

end Register

/-- Controls brought to level one: the flips that do so, and the qudits that remain
as controls. -/
structure RaisedControls (R : Type) where
  flips : List (Operation R)
  active : List Qudit

/-- Brings controls to level one, each with its set of accepted levels. A control that
accepts no level cannot be satisfied. -/
def RaisedControls.ofSets? :
    List (Ascending Nat) → List Qudit → GateResult R (Option (RaisedControls R))
  | set :: sets, control :: controls =>
      match set.toList with
      | [] => return none
      | [0] => do
          let flip ← Gate.x.on [control]
          return (← ofSets? sets controls).map fun raised =>
            ⟨flip :: raised.flips, control :: raised.active⟩
      | [0, 1] => ofSets? sets controls
      | _ => do
          return (← ofSets? sets controls).map fun raised =>
            ⟨raised.flips, control :: raised.active⟩
  | _, _ => return some ⟨[], []⟩

/-- The elementary forms of a controlled gate. -/
inductive ControlledForm (R : Type) where
  /-- There is none. -/
  | unknown
  | explicit (operations : List (Operation R))
  /-- A 2×2 matrix under controls at level one, between two rounds of flips. -/
  | rotation (matrix : Unitary R) (raised : RaisedControls R) (target : Qudit)

namespace ControlledGate

/-- The special form of a controlled gate, if it has one other than itself. -/
def nativeOperation? (gate : ControlledGate R) (qudits : List Qudit) :
    GateResult R (Option (Operation R)) := do
  match ← gate.sub.native gate.controlCount gate.condition gate.shape with
  | none => return none
  | some native =>
      if native.same gate.toGate then return none
      else return some (← native.on qudits)

/-- The elementary form of a controlled gate on qudits that match its shape. -/
def form (gate : ControlledGate R) (qudits : List Qudit) : GateResult R (ControlledForm R) := do
  if qudits.any (·.dimension != 2) then return .unknown
  match ← gate.sub.unitary with
  | none => return .unknown
  | some matrix =>
      match gate.sub.arity, gate.condition with
      | 0, condition => do
          let phase ← matrix.get 0 0
          let table ← Gate.ofAngles (← Register.phaseAngles gate.shape condition phase.arg)
          return .explicit [← table.on qudits]
      | 1, .product conjunction => do
          match ← RaisedControls.ofSets? conjunction.sets (qudits.take gate.controlCount) with
          | none => return .explicit []
          | some raised =>
              return .rotation matrix raised (← Machine.nth qudits gate.controlCount)
      | _, _ => return .unknown

end ControlledGate

end QuditCircuits
