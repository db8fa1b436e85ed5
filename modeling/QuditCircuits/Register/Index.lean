import QuditCircuits.Machine

/-!
# Basis indices

The basis states of a register with shape `[d₀, d₁, …]` are numbered in mixed
radix: the first qudit is the most significant digit. `flatIndex` and `digits`
convert between a list of levels and its number; for levels within the shape they
are inverse to each other.
-/

namespace QuditCircuits.Register

/-- Continues a mixed-radix number from its leading part. -/
def flatIndexFrom (leading : Nat) : List Nat → List Nat → Except Fault Nat
  | level :: levels, dimension :: shape => do
      flatIndexFrom (← Machine.add (← Machine.mul leading dimension) level) levels shape
  | _, _ => .ok leading

/-- The number of a list of levels. Only positions present in both lists count, and
every intermediate number must fit a word. -/
def flatIndex (levels shape : List Nat) : Except Fault Nat :=
  flatIndexFrom 0 levels shape

/-- The levels of a number together with what is left of it above the register. -/
def digitsWithin (index : Nat) : List Nat → Except Fault (List Nat × Nat)
  | [] => .ok ([], index)
  | dimension :: shape => do
      let (levels, rest) ← digitsWithin index shape
      if dimension = 0 then .error .divisionByZero
      else return (rest % dimension :: levels, rest / dimension)

/-- The levels of a number, taken off from the last qudit on. -/
def digits (index : Nat) (shape : List Nat) : Except Fault (List Nat) := do
  return (← digitsWithin index shape).1

end QuditCircuits.Register
