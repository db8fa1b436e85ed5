import QuditCircuits.Decomposition.OneLevel

/-!
# Full decomposition

Operations are decomposed depth first and in order until no rule applies. Every rule
replaces a gate by gates of smaller rank, so the rank of a gate bounds how deep its
decomposition goes.
-/

namespace QuditCircuits

variable {R : Type}

mutual

/-- A bound on how often a gate and its parts can be decomposed. -/
def Gate.rank : Gate R → Nat
  | .matrix _ _ => 1
  | .composite _ body => body.rank + 1
  | .controlled sub _ _ => sub.rank + 2
  | .x | .cx | .angle _ _ | .diagonal _ | .measurement _ _ | .bitFlip _ | .reset | .idle _
  | .phaseFlip => 0

/-- The largest rank of the gates of a circuit. -/
def Circuit.rank : Circuit R → Nat
  | .done => 0
  | .step gate _ rest => max gate.rank rest.rank

end

variable [Scalar R] {m : Type → Type} [Monad m] [MonadLiftT (GateResult R) m]

/-- Decomposes an operation and its parts down to the given depth. -/
def Operation.decomposeWithin (settings : DecompositionSettings R m) :
    Nat → Operation R → m (List (Operation R))
  | 0, operation => return [operation]
  | depth + 1, operation => do
      match ← operation.decompose settings with
      | none => return [operation]
      | some parts => return (← parts.mapM (decomposeWithin settings depth)).flatten

/-- Decomposes operations in order until no rule applies. -/
def decomposeAll (settings : DecompositionSettings R m) (operations : List (Operation R)) :
    m (List (Operation R)) := do
  return (← operations.mapM fun operation =>
    operation.decomposeWithin settings (operation.gate.rank + 1)).flatten

end QuditCircuits
