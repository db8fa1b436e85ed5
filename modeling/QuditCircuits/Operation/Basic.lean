import QuditCircuits.Gate.Error

/-!
# Operations

An operation is a gate applied to named qudits. The qudits must match the gate's
shape in number and dimensions; `Gate.on` checks this, and refuses a controlled gate
without any qudits for a reason of its own.
-/

namespace QuditCircuits

/-- A gate applied to qudits, in the order the gate expects. -/
structure Operation (R : Type) where
  gate : Gate R
  qudits : List Qudit

variable {R : Type}

namespace Gate

/-- Compares the dimensions of qudits with a shape, counting positions from
`position`. -/
def checkDimensions (gate : Gate R) (position : Nat) :
    List Nat → List Qudit → GateResult R Unit
  | expected :: shape, qudit :: qudits =>
      if qudit.dimension = expected then gate.checkDimensions (position + 1) shape qudits
      else .error (.quditDimension gate position qudit expected)
  | _, _ => .ok ()

/-- Checks that qudits match the shape of a gate. -/
def checkQudits (gate : Gate R) (qudits : List Qudit) : GateResult R Unit :=
  if gate.shape.length = qudits.length then gate.checkDimensions 0 gate.shape qudits
  else .error (.quditCount gate gate.shape.length qudits.length)

end Gate

/-- Applies a gate to qudits that match its shape. -/
def Operation.make (gate : Gate R) (qudits : List Qudit) : GateResult R (Operation R) := do
  gate.checkQudits qudits
  return ⟨gate, qudits⟩

/-- Applies a gate to qudits. -/
def Gate.on (gate : Gate R) (qudits : List Qudit) : GateResult R (Operation R) :=
  if gate.isControlled && qudits.isEmpty then .error (.emptyApplication gate)
  else Operation.make gate qudits

/-- Applies the gates of a circuit in order to the qudits of a line at their
positions. -/
def Circuit.place (line : List Qudit) : Circuit R → GateResult R (List (Operation R))
  | .done => .ok []
  | .step gate positions rest => do
      let operation ← gate.on (← Machine.select line positions)
      return operation :: (← rest.place line)

namespace Operation

/-- Whether two operations are stored alike. -/
def same [Scalar R] (first second : Operation R) : Bool :=
  first.gate.same second.gate && first.qudits == second.qudits

/-- A gate followed by its qudits. -/
def text [Written R] (operation : Operation R) : String :=
  Text.call operation.gate.text (Qudit.lineText operation.qudits)

end Operation

end QuditCircuits
