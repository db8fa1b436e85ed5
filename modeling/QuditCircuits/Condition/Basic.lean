import QuditCircuits.Condition.Disjunction

/-!
# Conditions on control qudits

A condition is a conjunction or a disjunction of conjunctions. The two forms are
kept apart: a disjunction of a single conjunction is a different value from that
conjunction until it is `simplified`. Conditions are joined side by side with
`combine` and as alternatives with `union`; both simplify their result.
-/

namespace QuditCircuits

/-- A condition on the joint levels of a register of control qudits. -/
inductive Condition where
  | product (conjunction : Conjunction)
  | sum (disjunction : Disjunction)
deriving DecidableEq

namespace Condition

/-- The number of control qudits. -/
def width : Condition → Nat
  | .product conjunction => conjunction.width
  | .sum disjunction => disjunction.width

def isProduct : Condition → Bool
  | .product _ => true
  | .sum _ => false

def isSum : Condition → Bool
  | .product _ => false
  | .sum _ => true

/-- The alternatives of a condition. -/
def conjunctions : Condition → List Conjunction
  | .product conjunction => [conjunction]
  | .sum disjunction => disjunction.terms.toList

/-- The condition as a disjunction. -/
def toDisjunction : Condition → Disjunction
  | .product conjunction => .singleton conjunction
  | .sum disjunction => disjunction

/-- Writes a disjunction of one conjunction as that conjunction. -/
def simplified : Condition → Condition
  | .product conjunction => .product conjunction
  | .sum disjunction =>
      match disjunction.terms.toList with
      | [conjunction] => .product conjunction
      | _ => .sum disjunction

/-- The condition on the qudits of both, those of `left` first, that holds when
both hold. -/
def combine : Condition → Condition → Condition
  | .product left, .product right => .product (left.append right)
  | left, right => simplified (.sum (left.toDisjunction.append right.toDisjunction))

/-- The condition that holds when one of two conditions on the same qudits does. -/
def union (left right : Condition) : Except ConditionError Condition :=
  if left.width = right.width then
    (Disjunction.ofConjunctions? (left.conjunctions ++ right.conjunctions)).map
      fun disjunction => simplified (.sum disjunction)
  else .error (.unionLength left.width right.width)

/-- The accepted assignments without repetition. -/
def expand : Condition → List (List Nat)
  | .product conjunction => conjunction.expand
  | .sum disjunction => disjunction.expand

/-- The first `count` accepted assignments. -/
def firstAssignments (condition : Condition) (count : Nat) : List (List Nat) :=
  match condition with
  | .product conjunction => conjunction.firstAssignments count
  | .sum disjunction => disjunction.firstAssignments count

/-- Whether a reader that asked for `count` assignments gets one by asking again. -/
def yieldsAfter (condition : Condition) (count : Nat) : Bool :=
  match condition with
  | .product conjunction => conjunction.yieldsAfter count
  | .sum disjunction => disjunction.yieldsAfter count

/-- Whether an assignment of levels satisfies the condition. -/
def accepts : Condition → List Nat → Bool
  | .product conjunction, assignment => conjunction.accepts assignment
  | .sum disjunction, assignment => disjunction.accepts assignment

/-- Whether the condition says that every qudit is at level one. -/
def isTrivial : Condition → Bool
  | .product conjunction => conjunction.isTrivial
  | .sum disjunction => disjunction.isTrivial

/-- Checks the form of the condition against the dimensions of its qudits. -/
def validateInner (condition : Condition) (shape : List Nat) : Except ConditionError Unit :=
  match condition with
  | .product conjunction => conjunction.validate shape
  | .sum disjunction => disjunction.validate shape

/-- Checks that the shape has the right length and every accepted level is a level
of its qudit. -/
def validate (condition : Condition) (shape : List Nat) : Except ConditionError Unit :=
  if shape.length = condition.width then condition.validateInner shape
  else .error (.shapeLength condition.width shape.length)

end Condition

end QuditCircuits
