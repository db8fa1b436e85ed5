import QuditCircuits.Gate.Text
import QuditCircuits.Qudit

/-!
# Refused gates

Why a gate cannot be built or applied, and how that is worded. A `Fault` on the way
is one of the reasons; it has no wording of its own.
-/

namespace QuditCircuits

/-- The reasons for refusing to build or apply a gate. -/
inductive GateError (R : Type) where
  /-- A measurement cannot be controlled. -/
  | measurementSubGate (gate : Gate R)
  /-- A channel that is no mixture of unitaries cannot be controlled. -/
  | nonUnitarySubGate (gate : Gate R)
  /-- The condition covers a different number of controls than asked for. -/
  | controlCount (count width : Nat)
  /-- The shape covers a different number of controls than asked for. -/
  | shapeLength (count length : Nat)
  /-- A control or target without levels. -/
  | zeroDimension (gate : Gate R) (position : Nat)
  /-- A controlled gate was applied to no qudits. -/
  | emptyApplication (gate : Gate R)
  /-- A gate was applied to the wrong number of qudits. -/
  | quditCount (gate : Gate R) (expected got : Nat)
  /-- A qudit has the wrong dimension. -/
  | quditDimension (gate : Gate R) (position : Nat) (qudit : Qudit) (expected : Nat)
  /-- The number of angles of a diagonal gate is no power of two. -/
  | angleCount (count : Nat)
  | condition (reason : ConditionError)
  | fault (reason : Fault)

/-- The outcome of building or applying gates. -/
abbrev GateResult (R : Type) : Type → Type :=
  Except (GateError R)

instance {R : Type} : MonadLift (Except Fault) (Except (GateError R)) where
  monadLift result := result.mapError .fault

instance {R : Type} : MonadLift (Except ConditionError) (Except (GateError R)) where
  monadLift result := result.mapError .condition

/-- Refuses for the given reason unless a requirement is met. -/
def demand {R : Type} (met : Bool) (reason : GateError R) : GateResult R Unit :=
  if met then .ok () else .error reason

/-- The wording of a refusal. -/
def GateError.message {R : Type} [Written R] : GateError R → String
  | .measurementSubGate gate => "cannot control measurement " ++ gate.text
  | .nonUnitarySubGate gate =>
      "cannot control channel with non-unitary operators: " ++ gate.text
  | .controlCount count width =>
      s!"control values cover {width} qudit(s), but num_controls is {count}"
  | .shapeLength count length =>
      s!"control qid shape has length {length}, but num_controls is {count}"
  | .zeroDimension gate position => s!"qudit {position} of {gate.text} has dimension 0"
  | .emptyApplication gate => "applied a gate to an empty set of qudits: " ++ gate.text
  | .quditCount gate expected got =>
      s!"gate {gate.text} acts on {expected} qudit(s), but was applied to {got}"
  | .quditDimension gate position qudit expected =>
      s!"gate {gate.text} expects qudit {position} to have dimension {expected}, "
        ++ s!"but {qudit.text} has {qudit.dimension}"
  | .angleCount count =>
      s!"diagonal gate needs a power-of-two number of angles, but got {count}"
  | .condition reason => "control values error: " ++ reason.message
  | .fault _ => "the computation left its range"

end QuditCircuits
