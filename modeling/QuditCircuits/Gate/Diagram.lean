import QuditCircuits.Condition.Text
import QuditCircuits.Gate.Text
import QuditCircuits.Qudit

/-!
# Gates in diagrams

The symbols that draw a gate on the wires of a circuit diagram, one per qudit.
Controls are drawn in front of the symbols of the controlled gate.
-/

namespace QuditCircuits

/-- How a gate is to be drawn. -/
structure DiagramOptions where
  /-- The number of qudits, if known. -/
  count : Option Nat := none
  /-- The qudits, if known. -/
  qudits : Option (List Qudit) := none
  unicode : Bool := true
  /-- The decimal places of numbers, which are otherwise written in full. -/
  precision : Option Nat := some 3

namespace DiagramOptions

/-- The options for the qudits after the first `skipped`. -/
def skip (options : DiagramOptions) (skipped : Nat) : DiagramOptions where
  count := options.count.map (· - skipped)
  qudits := options.qudits.map (·.drop skipped)
  unicode := options.unicode
  precision := options.precision

/-- The most decimal places that a number is written with. -/
def mostPlaces : Nat := 65535

/-- A parameter as drawn. -/
def parameterText {R : Type} [Written R] (options : DiagramOptions) :
    Parameter R → Except Fault String
  | .value number =>
      match options.precision with
      | some places =>
          if places ≤ mostPlaces then .ok (Written.fixed places number) else .error .precision
      | none => .ok (Written.plain number)
  | .symbol name => .ok name

end DiagramOptions

/-- The drawing of a gate: a symbol for each wire, and an exponent beside them. -/
structure Diagram (R : Type) where
  wires : List String
  exponent : Parameter R

/-- The drawing of a gate, if it has one. -/
def Gate.diagram {R : Type} [Scalar R] [Written R] :
    Gate R → DiagramOptions → Except Fault (Option (Diagram R))
  | .x, _ => return some ⟨["X"], .value 1⟩
  | .cx, _ => return some ⟨["@", "X"], .value 1⟩
  | .angle family parameter, options => do
      let label := Text.call family.label (← options.parameterText parameter)
      return some ⟨List.replicate family.shape.length label, .value 1⟩
  | .diagonal table, options => do
      let angles ← table.angles.toList.mapM fun angle => options.parameterText (.value angle)
      let label := Text.call "Diag" (", ".intercalate angles)
      return some ⟨List.replicate table.qubits label, .value 1⟩
  | .matrix _ shape, _ => return some ⟨List.replicate shape.length "U", .value 1⟩
  | .measurement _ shape, _ => return some ⟨List.replicate shape.length "M", .value 1⟩
  | .bitFlip probability, options => do
      let label := Text.call "BF" (← options.parameterText (.value probability))
      return some ⟨[label], .value 1⟩
  | .controlled sub condition shape, options => do
      let inner ← sub.diagram (options.skip shape.length)
      return inner.map fun inner => ⟨condition.wireSymbols ++ inner.wires, inner.exponent⟩
  | .reset, _ | .idle _, _ | .phaseFlip, _ | .composite _ _, _ => return none

end QuditCircuits
