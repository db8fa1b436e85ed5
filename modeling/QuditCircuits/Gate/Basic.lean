import QuditCircuits.Condition.Basic
import QuditCircuits.DenseMatrix.Basic
import QuditCircuits.Parameter

/-!
# Gates

The gates of the library form one closed type. A controlled gate holds the gate it
applies, the condition under which it does, and the dimensions of its controls; a
composite gate holds a circuit placed on its own qudits. Gates are compared as
stored, so numbers in them are equal only if they are stored alike.
-/

namespace QuditCircuits

/-- The families of gates with one angle. -/
inductive AngleFamily where
  /-- Rotation about the z axis: `diag (exp (-i θ / 2), exp (i θ / 2))`. -/
  | rz
  /-- Rotation about the y axis. -/
  | ry
  /-- Phase of the second level: `diag (1, exp (i θ))`. -/
  | phaseShift
  /-- Overall phase on no qudits. -/
  | globalPhase
deriving DecidableEq, Repr

/-- The dimensions of the qudits of an angle gate. -/
def AngleFamily.shape : AngleFamily → List Nat
  | .rz | .ry | .phaseShift => [2]
  | .globalPhase => []

/-- One phase angle for every basis state of a register of qubits. -/
structure PhaseTable (R : Type) where
  qubits : Nat
  angles : Array R
  size_eq : angles.size = Nat.pow 2 qubits

namespace PhaseTable

variable {R : Type}

/-- The table with the given angles, whose number must be a power of two. -/
def ofAngles? (angles : Array R) : Option (PhaseTable R) :=
  if size_eq : angles.size = Nat.pow 2 angles.size.log2 then some ⟨_, angles, size_eq⟩ else none

/-- Applies a function to every angle. -/
def map (transform : R → R) (table : PhaseTable R) : PhaseTable R :=
  ⟨table.qubits, table.angles.map transform, by simp [table.size_eq]⟩

end PhaseTable

mutual

/-- A gate on a fixed register of qudits. -/
inductive Gate (R : Type) where
  /-- Exchange of the two levels of a qubit. -/
  | x
  /-- Exchange of the levels of the second qubit if the first is at level one. -/
  | cx
  | angle (family : AngleFamily) (parameter : Parameter R)
  /-- A phase for every basis state of some qubits. -/
  | diagonal (table : PhaseTable R)
  /-- An explicit unitary matrix on qudits of the given dimensions. -/
  | matrix (entries : DenseMatrix (Amplitude R)) (shape : List Nat)
  /-- Measurement of all levels under a record key. -/
  | measurement (key : String) (shape : List Nat)
  /-- Exchange of the levels of a qubit with the given probability. -/
  | bitFlip (probability : R)
  /-- A gate applied when the controls in front of its qudits satisfy a condition. -/
  | controlled (sub : Gate R) (condition : Condition) (shape : List Nat)
  /-- Return of a qubit to its first level, which is no mixture of unitaries. -/
  | reset
  /-- The identity, without a decomposition or a drawing. -/
  | idle (shape : List Nat)
  /-- Sign change of the second level, which takes controls as they come. -/
  | phaseFlip
  /-- A circuit as one gate. -/
  | composite (shape : List Nat) (body : Circuit R)

/-- Gates placed on positions of a line of qudits. -/
inductive Circuit (R : Type) where
  | done
  | step (gate : Gate R) (positions : List Nat) (rest : Circuit R)

end

namespace Circuit

variable {R : Type}

/-- The circuit with the listed steps. -/
def ofList (steps : List (Gate R × List Nat)) : Circuit R :=
  steps.foldr (fun entry rest => .step entry.1 entry.2 rest) .done

/-- The steps of a circuit. -/
def toList : Circuit R → List (Gate R × List Nat)
  | .done => []
  | .step gate positions rest => (gate, positions) :: rest.toList

end Circuit

namespace Gate

variable {R : Type}

/-- The dimensions of the qudits a gate acts on. -/
def shape : Gate R → List Nat
  | .x => [2]
  | .cx => [2, 2]
  | .angle family _ => family.shape
  | .diagonal table => List.replicate table.qubits 2
  | .matrix _ shape => shape
  | .measurement _ shape => shape
  | .bitFlip _ => [2]
  | .controlled sub _ shape => shape ++ sub.shape
  | .reset => [2]
  | .idle shape => shape
  | .phaseFlip => [2]
  | .composite shape _ => shape

/-- The number of qudits a gate acts on. -/
def arity (gate : Gate R) : Nat :=
  gate.shape.length

def isMeasurement : Gate R → Bool
  | .measurement _ _ => true
  | _ => false

def isControlled : Gate R → Bool
  | .controlled _ _ _ => true
  | _ => false

end Gate

/-! ## Stored equality -/

mutual

/-- Whether two gates are stored alike. -/
def Gate.same {R : Type} [Scalar R] : Gate R → Gate R → Bool
  | .x, .x => true
  | .cx, .cx => true
  | .angle family parameter, .angle otherFamily otherParameter =>
      family == otherFamily && parameter.same otherParameter
  | .diagonal table, .diagonal other =>
      table.angles.size == other.angles.size &&
        (table.angles.toList.zip other.angles.toList).all fun pair => Scalar.same pair.1 pair.2
  | .matrix entries shape, .matrix otherEntries otherShape =>
      shape == otherShape && entries.same otherEntries
  | .measurement key shape, .measurement otherKey otherShape =>
      key == otherKey && shape == otherShape
  | .bitFlip probability, .bitFlip otherProbability => Scalar.same probability otherProbability
  | .controlled sub condition shape, .controlled otherSub otherCondition otherShape =>
      sub.same otherSub && condition == otherCondition && shape == otherShape
  | .reset, .reset => true
  | .idle shape, .idle otherShape => shape == otherShape
  | .phaseFlip, .phaseFlip => true
  | .composite shape body, .composite otherShape otherBody =>
      shape == otherShape && body.same otherBody
  | _, _ => false

/-- Whether two circuits are stored alike. -/
def Circuit.same {R : Type} [Scalar R] : Circuit R → Circuit R → Bool
  | .done, .done => true
  | .step gate positions rest, .step otherGate otherPositions otherRest =>
      gate.same otherGate && positions == otherPositions && rest.same otherRest
  | _, _ => false

end

end QuditCircuits
