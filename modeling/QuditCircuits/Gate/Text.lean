import QuditCircuits.Condition.Text
import QuditCircuits.Gate.Basic

/-!
# Written gates

The name of a gate, with its parameters, and a description of its stored form.
-/

namespace QuditCircuits

/-- The name of a family of angle gates. -/
def AngleFamily.label : AngleFamily → String
  | .rz => "Rz"
  | .ry => "Ry"
  | .phaseShift => "P"
  | .globalPhase => "GlobalPhase"

/-- The name of the stored form of an angle gate. -/
def AngleFamily.debugLabel : AngleFamily → String
  | .rz => "RzGate"
  | .ry => "RyGate"
  | .phaseShift => "PhaseShiftGate"
  | .globalPhase => "GlobalPhaseGate"

variable {R : Type} [Written R]

/-- The stored form of a parameter. -/
def Parameter.debugText : Parameter R → String
  | .value number => Text.call "Value" (Written.explicit number)
  | .symbol name => Text.call "Symbol" (Text.quote name)

/-- The name of a gate. A controlled gate is written as its condition followed by
the gate it applies. -/
def Gate.text : Gate R → String
  | .x => "X"
  | .cx => "CX"
  | .angle family parameter => Text.call family.label parameter.text
  | .diagonal table =>
      Text.call "Diag" (", ".intercalate (table.angles.toList.map Written.plain))
  | .matrix _ _ => "Matrix"
  | .measurement key _ => "M('" ++ key ++ "')"
  | .bitFlip probability => Text.call "BF" (Written.plain probability)
  | .controlled sub condition _ => condition.text ++ sub.text
  | .reset => "R"
  | .idle _ => "I"
  | .phaseFlip => "Z"
  | .composite _ _ => "Comp"

/-- How the controls of a gate with the given description are described. Controls
that are qubits at level one need no condition, and a single one no count. -/
def controlledDebugText (sub : String) (condition : Condition) (shape : List Nat) : String :=
  let fields :=
    if condition.isTrivial && shape == [2] then ["sub_gate=" ++ sub]
    else if condition.isTrivial && !shape.isEmpty && shape.all (· == 2) then
      ["sub_gate=" ++ sub, "num_controls=" ++ toString shape.length]
    else
      ["sub_gate=" ++ sub, "control_values=" ++ condition.debugText,
        "control_qid_shape=" ++ Text.naturals shape]
  Text.call "ControlledGate" (", ".intercalate fields)

mutual

/-- The stored form of a gate. -/
def Gate.debugText : Gate R → String
  | .x => "XGate"
  | .cx => "CXGate"
  | .angle family parameter => Text.call family.debugLabel parameter.debugText
  | .diagonal table =>
      Text.record "DiagonalGate"
        [("angles", Text.brackets (table.angles.toList.map Written.explicit))]
  | .matrix entries shape =>
      Text.record "MatrixGate"
        [("size", toString entries.rows), ("qid_shape", Text.naturals shape)]
  | .measurement key shape =>
      Text.record "MeasurementGate" [("key", Text.quote key), ("qid_shape", Text.naturals shape)]
  | .bitFlip probability =>
      Text.record "BitFlipChannel" [("p", Written.explicit probability)]
  | .controlled sub condition shape => controlledDebugText sub.debugText condition shape
  | .reset => "Reset"
  | .idle shape => Text.record "Opaque" [("shape", Text.naturals shape)]
  | .phaseFlip => "PhaseFlip"
  | .composite shape body =>
      Text.record "Composite"
        [("shape", Text.naturals shape), ("ops", Text.brackets body.debugTexts)]

/-- The stored forms of the steps of a circuit. -/
def Circuit.debugTexts : Circuit R → List String
  | .done => []
  | .step gate positions rest =>
      ("(" ++ gate.debugText ++ ", " ++ Text.naturals positions ++ ")") :: rest.debugTexts

end

end QuditCircuits
