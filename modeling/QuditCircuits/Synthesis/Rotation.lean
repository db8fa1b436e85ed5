import QuditCircuits.Synthesis.Flip

/-!
# Controlled operators from square roots

An operator under several controls is built from its square root: with the last
control alone, then its adjoint, and then under the remaining controls, with two
flips of the last control in between. The flips borrow the target and all qubits
that are idle. What remains are operators under at most one control.
-/

namespace QuditCircuits

/-- What the construction needs of the operators on a qubit. -/
class RootedOperator (M : Type) where
  /-- An operator whose square is the given one. -/
  root : M → M
  adjoint : M → M
  /-- Exchange of the two levels. -/
  flip : M

/-- An operator under at most one control. -/
inductive RotationStep (M Q : Type) where
  | apply (operator : M) (target : Q)
  | applyIf (operator : M) (control target : Q)
  | flip (target : Q)
  | cnot (control target : Q)
deriving Repr

namespace RotationStep

variable {M Q : Type} [RootedOperator M]

/-- The flips onto the last control have fewer controls than the rotation. -/
private theorem length_le_of_planned {first second target : Q} {others borrowed : List Q}
    {flips : List (Flip Q)}
    (planned : Flip.plan (first :: (second :: others).dropLast) target borrowed = .ok flips)
    {flip : Flip Q} (member : flip ∈ flips) : flip.controls.length ≤ others.length + 1 := by
  simpa using Flip.controls_length_le_of_plan planned member

/-- Builds an operator under controls at level one, with `borrowed` qubits as
workspace. -/
def rotate (operator : M) (controls : List Q) (target : Q) (borrowed : List Q) :
    Except Fault (List (RotationStep M Q)) :=
  match controls with
  | [] => .ok [.apply operator target]
  | [control] => .ok [.applyIf operator control target]
  | first :: second :: others =>
      let rest := first :: (second :: others).dropLast
      let last := (second :: others).getLast (List.cons_ne_nil second others)
      let root := RootedOperator.root operator
      match _planned : Flip.plan rest last (target :: borrowed) with
      | .error fault => .error fault
      | .ok flips => do
          let flipped ← flips.attach.mapM fun flip =>
            match flip with
            | ⟨.free target, _⟩ => .ok [.flip target]
            | ⟨.cnot control target, _⟩ => .ok [.cnot control target]
            | ⟨.toffoli first second target, _member⟩ =>
                rotate RootedOperator.flip [first, second] target []
            | ⟨.many controls target, _member⟩ => rotate RootedOperator.flip controls target []
          let remaining ← rotate root rest target (last :: borrowed)
          return .applyIf root last target :: (flipped.flatten ++
            .applyIf (RootedOperator.adjoint root) last target :: (flipped.flatten ++ remaining))
termination_by controls.length
decreasing_by
  · exact Nat.lt_succ_of_le (length_le_of_planned _planned _member)
  · exact Nat.lt_succ_of_le (length_le_of_planned _planned _member)
  · simp

end RotationStep

end QuditCircuits
