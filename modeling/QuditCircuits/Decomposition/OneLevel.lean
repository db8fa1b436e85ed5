import QuditCircuits.Decomposition.ControlledForm
import QuditCircuits.Synthesis.Pulse

/-!
# Decomposition by one level

A gate is replaced by operations on its qudits, if there is a rule for it. An explicit
matrix on a qubit becomes turns, and a composite gate its circuit. For a controlled
gate the first of three rules applies: a special form of its own, the decomposition of
the applied gate with every part controlled, or an elementary form. How rotations
under controls are built is left to the settings, which may record or refuse.
-/

namespace QuditCircuits

/-- How gates are decomposed. -/
structure DecompositionSettings (R : Type) (m : Type → Type) where
  /-- Whether overall phases become operations of their own. -/
  extractsGlobalPhases : Bool
  /-- Angles within this bound of zero are left out. -/
  tolerance : R
  /-- Builds a 2×2 unitary matrix on a target under controls at level one. -/
  synthesize : Unitary R → List Qudit → Qudit → R → m (List (Operation R))

namespace DecompositionSettings

variable {R : Type} {m : Type → Type}

/-- The settings that rotations are built with by default. -/
def standard [Scalar R] : DecompositionSettings R (GateResult R) where
  extractsGlobalPhases := false
  tolerance := Scalar.decimal 1 10
  synthesize := QuditCircuits.synthesize

/-- The settings with overall phases as operations. -/
def extractingGlobalPhases (settings : DecompositionSettings R m) : DecompositionSettings R m :=
  { settings with extractsGlobalPhases := true }

end DecompositionSettings

variable {R : Type} [Scalar R]

/-- A gate with one angle on qudits, left out if the angle is within the tolerance of
zero. -/
def AngleFamily.onUnlessSmall (family : AngleFamily) (tolerance angle : R)
    (qudits : List Qudit) : GateResult R (List (Operation R)) :=
  if Scalar.lt tolerance (Scalar.abs angle) then do
    return [← (Gate.angle family (.value angle)).on qudits]
  else return []

/-- Turns of a qubit with the given Euler angles. -/
def EulerAngles.operations (angles : EulerAngles R) (extractsGlobalPhases : Bool)
    (tolerance : R) (qudits : List Qudit) : GateResult R (List (Operation R)) := do
  let first ← AngleFamily.rz.onUnlessSmall tolerance angles.delta qudits
  let second ← AngleFamily.ry.onUnlessSmall tolerance angles.gamma qudits
  let third ← AngleFamily.rz.onUnlessSmall tolerance angles.beta qudits
  let phase ←
    if extractsGlobalPhases then AngleFamily.globalPhase.onUnlessSmall tolerance angles.alpha []
    else pure []
  return first ++ second ++ third ++ phase

variable {m : Type → Type} [Monad m] [MonadLiftT (GateResult R) m]

/-- The operations of an elementary form, if there is one. -/
def ControlledForm.operations? (settings : DecompositionSettings R m) :
    ControlledForm R → m (Option (List (Operation R)))
  | .unknown => return none
  | .explicit operations => return some operations
  | .rotation matrix raised target => do
      let rotation ← settings.synthesize matrix raised.active target settings.tolerance
      return some (raised.flips ++ rotation ++ raised.flips)

/-- Replaces a gate on qudits by operations, if there is a rule for it. -/
def Gate.decompose (settings : DecompositionSettings R m) :
    Gate R → List Qudit → m (Option (List (Operation R)))
  | .matrix entries shape, qudits => do
      if shape = [2] then
        return some (← liftM ((EulerAngles.ofMatrix entries).operations
          settings.extractsGlobalPhases settings.tolerance qudits))
      else return none
  | .composite _ body, qudits => return some (← liftM (body.place qudits))
  | .controlled sub condition shape, qudits => do
      let gate : ControlledGate R := ⟨sub, condition, shape⟩
      liftM (gate.toGate.checkQudits qudits)
      let (controls, targets) := (qudits.take shape.length, qudits.drop shape.length)
      match ← liftM (gate.nativeOperation? qudits) with
      | some operation => return some [operation]
      | none =>
          match ← sub.decompose settings.extractingGlobalPhases targets with
          | some parts =>
              return some (← liftM (parts.mapM (·.controlledBy controls (some condition))))
          | none => (← liftM (gate.form qudits)).operations? settings
  | _, _ => return none

/-- Replaces an operation by operations, if there is a rule for it. -/
def Operation.decompose (settings : DecompositionSettings R m) (operation : Operation R) :
    m (Option (List (Operation R))) :=
  operation.gate.decompose settings operation.qudits

end QuditCircuits
