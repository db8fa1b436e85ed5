import QuditCircuits.Condition.Basic
import QuditCircuits.DenseMatrix.Basic
import QuditCircuits.Register.Index

/-!
# Embedding operators into registers

`embed` lets an operator on some qudits of a register act on the whole register,
and `controlledEmbedding` lets an operator act on a target only where a condition
on a control register holds. Both only need sums of entries, so they are defined
over any entry type.
-/

namespace QuditCircuits.Register

variable {α : Type}

/-- Replaces the element at a position that must lie inside the list. -/
def replace (levels : List Nat) (position level : Nat) : Except Fault (List Nat) :=
  if position < levels.length then .ok (levels.set position level)
  else .error .indexOutOfRange

/-- Writes levels at positions, from the first on: the last level written at a
position stays. -/
def overwrite (levels : List Nat) : List Nat → List Nat → Except Fault (List Nat)
  | level :: rest, position :: positions => do
      overwrite (← replace levels position level) rest positions
  | _, _ => .ok levels

/-- Adds a value to an entry of a column. -/
def addAt [Add α] (column : Array α) (row : Nat) (value : α) : Except Fault (Array α) :=
  if inside : row < column.size then .ok (column.set row (column[row] + value))
  else .error .indexOutOfRange

/-- A column of an embedded operator: every row of the operator adds its entry at
the basis state that has the row's levels at the positions and the column's levels
elsewhere. -/
def embedColumn [Zero α] [Add α] (matrix : DenseMatrix α) (positions shape subShape : List Nat)
    (total subTotal column : Nat) : Except Fault (Array α) := do
  let levels ← digits column shape
  let subColumn ← flatIndex (← Machine.select levels positions) subShape
  (List.range subTotal).foldlM
    (fun current subRow => do
      let value ← matrix.get subRow subColumn
      let rowLevels ← overwrite levels (← digits subRow subShape) positions
      addAt current (← flatIndex rowLevels shape) value)
    (Array.replicate total 0)

/-- The matrix with the given columns. -/
def ofColumns [Zero α] (size : Nat) (columns : Array (Array α)) : DenseMatrix α :=
  DenseMatrix.ofFn size size fun row col => ((columns[col]?.getD #[])[row]?).getD 0

/-- The operator on a register that acts as `matrix` on the qudits at the positions,
in their listed order, and as the identity elsewhere. Entries take `width` bytes. -/
def embed [Zero α] [Add α] (width : Nat) (matrix : DenseMatrix α) (positions shape : List Nat) :
    Except Fault (DenseMatrix α) := do
  let total ← Machine.product shape
  let subShape ← Machine.select shape positions
  let subTotal ← Machine.product subShape
  Machine.reserve (total * total) width
  let columns ← (List.range total).mapM
    (embedColumn matrix positions shape subShape total subTotal)
  return ofColumns total columns.toArray

/-- Marks the listed indices below `size`. -/
def marks (size : Nat) (indices : List Nat) : Array Bool :=
  indices.foldl (fun current index => current.setIfInBounds index true)
    (Array.replicate size false)

/-- Whether a matrix fills a square block: it is square, or a single column to be
repeated. -/
def fillsBlock (matrix : DenseMatrix α) : Bool :=
  matrix.cols == matrix.rows || matrix.cols == 1

/-- The operator on a control register followed by a target that acts as `matrix` on
the target for the accepted assignments and as the identity for all others. Entries
take `width` bytes. -/
def controlledEmbedding [Zero α] [One α] (width : Nat) (shape : List Nat)
    (condition : Condition) (matrix : DenseMatrix α) : Except Fault (DenseMatrix α) := do
  let blocks ← Machine.product shape
  let block := matrix.rows
  let accepted ← condition.expand.mapM fun assignment => flatIndex assignment shape
  let size ← Machine.mul blocks block
  Machine.reserve (size * size) width
  let active := marks blocks accepted
  if active.contains true && !fillsBlock matrix then .error .sizeMismatch
  else return DenseMatrix.ofFn size size fun row col =>
    if row / block = col / block then
      if active[row / block]?.getD false then
        matrix.entry (row % block) (if matrix.cols = 1 then 0 else col % block)
      else if row = col then 1 else 0
    else 0

end QuditCircuits.Register
