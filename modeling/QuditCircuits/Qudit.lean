import QuditCircuits.Machine
import QuditCircuits.Text.Literal

/-!
# Qudits

A qudit is named by an index and carries its number of levels. Two qudits are the
same only if both agree, so one index may name qudits of several dimensions.
-/

namespace QuditCircuits

/-- A quantum system with finitely many levels. -/
structure Qudit where
  index : Nat
  dimension : Nat
  dimension_pos : 0 < dimension
deriving DecidableEq

namespace Qudit

/-- The two-level qudit with the given index. -/
def qubit (index : Nat) : Qudit := ⟨index, 2, by decide⟩

instance : Inhabited Qudit := ⟨qubit 0⟩

/-- The qudit with the given index and dimension, unless the dimension is zero. -/
def ofDimension? (index dimension : Nat) : Option Qudit :=
  if positive : 0 < dimension then some ⟨index, dimension, positive⟩ else none

/-- The qudit with the given index and dimension, which must not be zero. -/
def ofDimension (index dimension : Nat) : Except Fault Qudit :=
  match ofDimension? index dimension with
  | some qudit => .ok qudit
  | none => .error .emptyQudit

/-- The dimensions of the qudits of a register. -/
def dimensions (qudits : List Qudit) : List Nat :=
  qudits.map dimension

/-- A line of qubits, indexed from zero. -/
def qubits (count : Nat) : List Qudit :=
  (List.range count).map qubit

/-- A line of qudits of the given dimensions, indexed from `start`. -/
def lineFrom (start : Nat) : List Nat → Except Fault (List Qudit)
  | [] => .ok []
  | dimension :: shape => do
      let qudit ← ofDimension start dimension
      return qudit :: (← lineFrom (start + 1) shape)

/-- A line of qudits of the given dimensions, indexed from zero. -/
def line (shape : List Nat) : Except Fault (List Qudit) :=
  lineFrom 0 shape

/-- A line of qudits has the dimensions it was laid out for. -/
theorem dimensions_lineFrom {start : Nat} {shape : List Nat} {qudits : List Qudit}
    (built : lineFrom start shape = .ok qudits) : dimensions qudits = shape := by
  induction shape generalizing start qudits with
  | nil => cases built; rfl
  | cons dimension shape previous =>
      unfold lineFrom ofDimension ofDimension? at built
      by_cases positive : 0 < dimension
      · cases rest : lineFrom (start + 1) shape with
        | error fault => simp [positive, rest, bind, Except.bind] at built
        | ok tail =>
            simp only [positive, rest, bind, Except.bind, pure, Except.pure, dite_true] at built
            cases built
            simpa [dimensions] using previous rest
      · simp [positive, bind, Except.bind] at built

/-- Qudits are ordered by index, then by dimension. -/
def before (first second : Qudit) : Bool :=
  first.index < second.index ||
    (first.index == second.index && first.dimension ≤ second.dimension)

/-- Qudits in ascending order. -/
def sort (qudits : List Qudit) : List Qudit :=
  qudits.mergeSort before

/-- The dimension is written only where it is not two. -/
def text (qudit : Qudit) : String :=
  if qudit.dimension = 2 then s!"q({qudit.index})"
  else s!"q({qudit.index}) (d={qudit.dimension})"

/-- The fields of a qudit as a record. -/
def debugText (qudit : Qudit) : String :=
  Text.record "Qid" [("index", toString qudit.index), ("dimension", toString qudit.dimension)]

/-- A register as a list of qudits. -/
def lineText (qudits : List Qudit) : String :=
  ", ".intercalate (qudits.map text)

end Qudit

end QuditCircuits
