import QuditCircuits.DenseMatrix.Closeness
import QuditCircuits.Gate.Controlled

/-!
# Gates derived from gates

Powers, resolution of symbols, and special forms of controlled gates. Raising a
controlled gate to a power builds it again; resolving its symbols keeps its controls
as they are.
-/

namespace QuditCircuits

variable {R : Type}

/-- A result of building, with any refusal read as its absence. A fault stays one. -/
def GateResult.allowed {α : Type} : GateResult R α → Except Fault (Option α)
  | .ok value => .ok (some value)
  | .error (.fault reason) => .error reason
  | .error _ => .ok none

mutual

/-- Replaces the symbols of a gate. -/
def Gate.resolve (bindings : Bindings R) (recursive : Bool) : Gate R → Gate R
  | .angle family parameter => .angle family (bindings.resolve parameter recursive)
  | .controlled sub condition shape =>
      (ControlledGate.flatten (sub.resolve bindings recursive) condition shape).toGate
  | .composite shape body => .composite shape (body.resolve bindings recursive)
  | .x => .x
  | .cx => .cx
  | .diagonal table => .diagonal table
  | .matrix entries shape => .matrix entries shape
  | .measurement key shape => .measurement key shape
  | .bitFlip probability => .bitFlip probability
  | .reset => .reset
  | .idle shape => .idle shape
  | .phaseFlip => .phaseFlip

/-- Replaces the symbols of the gates of a circuit. -/
def Circuit.resolve (bindings : Bindings R) (recursive : Bool) : Circuit R → Circuit R
  | .done => .done
  | .step gate positions rest =>
      .step (gate.resolve bindings recursive) positions (rest.resolve bindings recursive)

end

variable [Scalar R]

namespace Gate

/-- A gate raised to a power. Angles are multiplied; a gate without angles, or with
an unresolved one, has no power. -/
def pow (exponent : R) : Gate R → Except Fault (Option (Gate R))
  | .angle family parameter => .ok ((parameter.scaled exponent).map (.angle family))
  | .diagonal table => .ok (some (.diagonal (table.map (exponent * ·))))
  | .controlled sub condition shape => do
      match ← sub.pow exponent with
      | none => return none
      | some power =>
          return (← GateResult.allowed (power.control
            { condition := some condition, shape := some shape })).map ControlledGate.toGate
  | _ => .ok none

/-- The special form of a gate under the given controls, if it has one. An exchange
of levels under one qubit at level one has its own gate. A sign change takes any
controls, in the general form. -/
def native (gate : Gate R) (count : Nat) (condition : Condition) (shape : List Nat) :
    Except Fault (Option (Gate R)) :=
  match gate with
  | .x =>
      if count == 1 && shape == [2] && condition.isTrivial then .ok (some .cx) else .ok none
  | .phaseFlip => do
      return (← GateResult.allowed (Gate.phaseFlip.control
        { count := some count, condition := some condition, shape := some shape })).map
          ControlledGate.toGate
  | _ => .ok none

/-- The tolerance within which an explicit matrix must be unitary. -/
def unitaryTolerance : R := Scalar.decimal 1 8

/-- The gate with an explicit matrix, which must be square of the dimension of its
qudits, and unitary. -/
def ofMatrix? (entries : Unitary R) (shape : List Nat) : Except Fault (Option (Gate R)) := do
  let size ← Machine.product shape
  if entries.rows = size ∧ entries.cols = size ∧
      entries.isUnitary unitaryTolerance size = true then
    return some (.matrix entries shape)
  else return none

/-- The diagonal gate with the given phase angles. -/
def ofAngles (angles : Array R) : GateResult R (Gate R) :=
  match PhaseTable.ofAngles? angles with
  | some table => .ok (.diagonal table)
  | none => .error (.angleCount angles.size)

end Gate

end QuditCircuits
