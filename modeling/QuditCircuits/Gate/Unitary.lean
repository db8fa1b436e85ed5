import QuditCircuits.Operation.Basic
import QuditCircuits.Register.Embedding

/-!
# Matrices of gates and circuits

The unitary matrix of a gate, if it has one, and its description as a mixture of
unitaries. A circuit over a register multiplies the embedded matrices of its
operations; it has no matrix as soon as one operation has none or leaves the
register.
-/

namespace QuditCircuits

variable {R : Type} [Scalar R]

/-- A square complex matrix. -/
abbrev Unitary (R : Type) : Type := DenseMatrix (Amplitude R)

/-- Exchange of two levels. -/
def Unitary.flip : Unitary R := DenseMatrix.square 0 1 1 0

/-- The matrix of an angle gate. -/
def AngleFamily.unitary : AngleFamily → R → Unitary R
  | .rz, angle =>
      .square (.cis (-angle / Scalar.two)) 0 0 (.cis (angle / Scalar.two))
  | .ry, angle =>
      let cosine := Scalar.cos (angle / Scalar.two)
      let sine := Scalar.sin (angle / Scalar.two)
      .square (.ofReal cosine) (.ofReal (-sine)) (.ofReal sine) (.ofReal cosine)
  | .phaseShift, angle => .square 1 0 0 (.cis angle)
  | .globalPhase, angle => .ofFn 1 1 fun _ _ => .cis angle

/-- The positions of qudits in a register, if all are there. -/
def positionsIn (register qudits : List Qudit) : Option (List Nat) :=
  qudits.mapM fun qudit => register.idxOf? qudit

/-- A matrix to be applied to some qudits; the matrix may be missing. -/
abbrev Stage (R : Type) : Type := Except Fault (Option (Unitary R)) × List Qudit

/-- Multiplies the embedded matrices of the stages onto `total`, in order. -/
def applyStages (register : List Qudit) (total : Unitary R) :
    List (Stage R) → Except Fault (Option (Unitary R))
  | [] => .ok (some total)
  | (matrix, qudits) :: stages => do
      match ← matrix, positionsIn register qudits with
      | some matrix, some positions =>
          let embedded ← Register.embed DenseMatrix.amplitudeWidth matrix positions
            (Qudit.dimensions register)
          applyStages register (← embedded.mul? total) stages
      | _, _ => return none

/-- The matrix of a sequence of stages over a register. -/
def composeStages (register : List Qudit) (stages : List (Stage R)) :
    Except Fault (Option (Unitary R)) := do
  let size ← Machine.product (Qudit.dimensions register)
  applyStages register (← DenseMatrix.identity? size DenseMatrix.amplitudeWidth) stages

/-- Pairs matrices with the qudits they are applied to. -/
def stagesOf (matrices : List (Except Fault (Option (Unitary R))))
    (operations : List (Operation R)) : List (Stage R) :=
  matrices.zip (operations.map Operation.qudits)

mutual

/-- The unitary matrix of a gate, if it has one. -/
def Gate.unitary : Gate R → Except Fault (Option (Unitary R))
  | .x => .ok (some .flip)
  | .cx => .ok (some (.ofFn 4 4 fun row col =>
      if row = (if col < 2 then col else 5 - col) then 1 else 0))
  | .angle family parameter => .ok (parameter.value?.map family.unitary)
  | .diagonal table => do
      Machine.reserve (table.angles.size * table.angles.size) DenseMatrix.amplitudeWidth
      return some (.diagonal (table.angles.map .cis))
  | .matrix entries _ => .ok (some entries)
  | .measurement _ _ => .ok none
  | .bitFlip _ => .ok none
  | .controlled sub condition shape => do
      let _ ← Qudit.line (shape ++ sub.shape)
      match ← sub.unitary with
      | none => return none
      | some matrix =>
          return some (← Register.controlledEmbedding DenseMatrix.amplitudeWidth shape condition
            matrix)
  | .reset => .ok none
  | .idle shape => do
      return some (← DenseMatrix.identity? (← Machine.product shape) DenseMatrix.amplitudeWidth)
  | .phaseFlip => .ok (some (.square 1 0 0 (.ofReal (-1))))
  | .composite shape body => do
      let line ← Qudit.line shape
      let matrices := body.unitaries
      match body.place line with
      | .error (.fault reason) => .error reason
      | .error _ => return none
      | .ok operations => composeStages line (stagesOf matrices operations)

/-- The unitary matrices of the gates of a circuit. -/
def Circuit.unitaries : Circuit R → List (Except Fault (Option (Unitary R)))
  | .done => []
  | .step gate _ rest => gate.unitary :: rest.unitaries

end

/-- **The matrix of a circuit.** The operations act in order on the register. -/
def unitaryOf (operations : List (Operation R)) (register : List Qudit) :
    Except Fault (Option (Unitary R)) :=
  composeStages register (operations.map fun operation =>
    (operation.gate.unitary, operation.qudits))

namespace Gate

/-- Whether a gate has a unitary matrix. Controls change nothing about that. -/
def hasUnitary : Gate R → Except Fault Bool
  | .controlled sub _ _ => sub.hasUnitary
  | gate => return (← gate.unitary).isSome

/-- Whether a gate is a mixture of unitaries. -/
def hasMixture : Gate R → Except Fault Bool
  | .bitFlip _ => .ok true
  | .controlled sub _ _ => sub.hasMixture
  | gate => gate.hasUnitary

/-- A gate as unitary matrices with their probabilities, if it is a mixture. -/
def mixture : Gate R → Except Fault (Option (List (R × Unitary R)))
  | .bitFlip probability =>
      .ok (some [(1 - probability, DenseMatrix.identity 2), (probability, .flip)])
  | .controlled sub condition shape => do
      let _ ← Qudit.line (shape ++ sub.shape)
      match ← sub.mixture with
      | none => return none
      | some parts =>
          return some (← parts.mapM fun part => do
            return (part.1, ← Register.controlledEmbedding DenseMatrix.amplitudeWidth shape
              condition part.2))
  | gate => do return (← gate.unitary).map fun matrix => [(1, matrix)]

end Gate

end QuditCircuits
