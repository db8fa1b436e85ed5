/-!
# Binary fractions

A finite 64-bit floating-point number is `±significand · 2 ^ exponent` with an
exact integer significand. `BinaryNumber.ofFloat` reads this form off the stored
bits; decimal text is computed from it in exact integer arithmetic.
-/

namespace QuditCircuits

/-- The value of a floating-point number, read off its bits. -/
inductive BinaryNumber where
  | notANumber
  | infinite (negative : Bool)
  /-- The number `±significand · 2 ^ exponent`; `tight` says that the next
  smaller magnitude lies only half as far away as the next larger one. -/
  | finite (negative : Bool) (significand : Nat) (exponent : Int) (tight : Bool)
deriving DecidableEq, Repr

namespace BinaryNumber

/-- Number of stored fraction bits. -/
def fractionBits : Nat := 52

/-- Exponent of the smallest magnitude. -/
def leastExponent : Int := -1074

/-- Reads sign, exponent field and fraction of a stored word. -/
def ofBits (word : Nat) : BinaryNumber :=
  let negative := word / Nat.pow 2 63 % 2 == 1
  let field : Nat := word / Nat.pow 2 fractionBits % Nat.pow 2 11
  let fraction := word % Nat.pow 2 fractionBits
  if field = 2047 then
    if fraction = 0 then .infinite negative else .notANumber
  else if field = 0 then .finite negative fraction leastExponent false
  else
    .finite negative (Nat.pow 2 fractionBits + fraction) (leastExponent + (field - 1 : Nat))
      (fraction == 0 && field != 1)

/-- The exact value of a floating-point number. -/
def ofFloat (x : Float) : BinaryNumber :=
  ofBits x.toBits.toNat

end BinaryNumber

end QuditCircuits
