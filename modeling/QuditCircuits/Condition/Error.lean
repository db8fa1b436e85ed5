/-!
# Refused conditions

Why a condition on control qudits is refused, and how that is worded.
-/

namespace QuditCircuits

/-- The reasons for refusing a condition. -/
inductive ConditionError where
  /-- An accepted value is not a level of its qudit. -/
  | outOfRange (qudit value dimension : Nat)
  /-- A shape has a different number of qudits. -/
  | shapeLength (expected got : Nat)
  /-- A disjunction without conjunctions. -/
  | emptyDisjunction
  /-- A conjunction covers a different number of qudits than the first one. -/
  | conjunctionLength (index expected got : Nat)
  /-- The two sides of a union cover different numbers of qudits. -/
  | unionLength (left right : Nat)
deriving DecidableEq, Repr

/-- The wording of a refusal. -/
def ConditionError.message : ConditionError → String
  | .outOfRange qudit value dimension =>
      s!"control value {value} is out of range for control qudit {qudit} "
        ++ s!"with dimension {dimension}"
  | .shapeLength expected got =>
      s!"control values cover {expected} qudit(s), but a shape for {got} was given"
  | .emptyDisjunction => "a sum of products must contain at least one conjunction"
  | .conjunctionLength index expected got =>
      s!"conjunction {index} covers {got} qudit(s), but {expected} were expected"
  | .unionLength left right =>
      s!"cannot take the union of conditions on {left} and {right} qudit(s)"

end QuditCircuits
