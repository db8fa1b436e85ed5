import QuditCircuits.Decimal.Notation

/-!
# Real scalars

Gates, matrices and rewriting rules are written over an arbitrary type of real
scalars. `Scalar` lists the arithmetic they use. The running program uses
floating-point numbers; statements about exact arithmetic take a scalar type
whose operations satisfy `ExactScalar`, so that rounding and the special values
of floating-point arithmetic stay outside them.
-/

namespace QuditCircuits

/-- The arithmetic of real scalars. -/
class Scalar (R : Type) extends Zero R, One R, Add R, Sub R, Mul R, Div R, Neg R where
  /-- The number `mantissa · 10 ^ (-places)`. -/
  decimal (mantissa places : Nat) : R
  pi : R
  abs : R → R
  sqrt : R → R
  sin : R → R
  cos : R → R
  /-- The angle of the point with the second and first argument as coordinates. -/
  atan2 : R → R → R
  /-- The distance of a point from the origin. -/
  hypot : R → R → R
  /-- Numeric comparison; false whenever it is undefined. -/
  le : R → R → Bool
  /-- Numeric strict comparison; false whenever it is undefined. -/
  lt : R → R → Bool
  /-- A total order that refines numeric comparison. -/
  totalLe : R → R → Bool
  /-- The larger of two numbers, or the defined one. -/
  max : R → R → R
  /-- Zero of either sign. -/
  isZero : R → Bool
  /-- Whether the sign is negative; a zero may carry a sign. -/
  isNegative : R → Bool
  /-- Whether two numbers are stored alike. -/
  same : R → R → Bool

namespace Scalar

variable {R : Type} [Scalar R]

/-- The number two. -/
def two : R := 1 + 1

/-- A full turn. -/
def fullTurn : R := pi + pi

end Scalar

/-- Scalars whose arithmetic is that of a commutative ring, with stored equality
as equality. -/
class ExactScalar (R : Type) [Scalar R] : Prop where
  add_assoc (a b c : R) : a + b + c = a + (b + c)
  add_comm (a b : R) : a + b = b + a
  zero_add (a : R) : 0 + a = a
  neg_add_cancel (a : R) : -a + a = 0
  sub_eq_add_neg (a b : R) : a - b = a + -b
  mul_assoc (a b c : R) : a * b * c = a * (b * c)
  mul_comm (a b : R) : a * b = b * a
  one_mul (a : R) : 1 * a = a
  mul_add (a b c : R) : a * (b + c) = a * b + a * c
  same_iff (a b : R) : Scalar.same a b = true ↔ a = b

/-- Texts of scalars. -/
class Written (R : Type) where
  /-- The fewest digits that read back, never with an exponent. -/
  plain : R → String
  /-- The fewest digits that read back, with a decimal point or an exponent. -/
  explicit : R → String
  /-- A fixed number of decimal places. -/
  fixed : Nat → R → String

namespace Float64

/-- The number `2 ^ exponent`, for an exponent from -1022 to 1023. -/
def powerOfTwo (exponent : Int) : Float :=
  Float.ofBits (UInt64.ofNat ((exponent + 1023).toNat * Nat.pow 2 52))

def infinity : Float := Float.ofBits 0x7ff0000000000000

/-- The bound above which squares are taken after scaling down. -/
def largeBound : Float := powerOfTwo 511

/-- The bound below which squares are taken after scaling up. -/
def smallBound : Float := powerOfTwo (-459)

/-- A number this much smaller than another does not reach its digits. -/
def digitBound : Float := powerOfTwo (-54)

/-- Root of the sum of two squares. The rounded root differs from the exact one by
little, so one step of Newton's method corrects it; the difference of the squares is
arranged so that its terms do not cancel. -/
def euclid (larger smaller : Float) : Float :=
  let root := Float.sqrt (larger * larger + smaller * smaller)
  let excess :=
    if root ≤ 2.0 * smaller then
      let delta := root - smaller
      larger * (2.0 * delta - larger) + (delta - 2.0 * (larger - smaller)) * delta
    else
      let delta := root - larger
      2.0 * delta * (larger - 2.0 * smaller) + ((4.0 * delta - smaller) * smaller + delta * delta)
  root - excess / (2.0 * root)

/-- Distance from the origin. Squares are taken after scaling by a power of two
where they would leave the range of floating-point numbers. -/
def hypot (x y : Float) : Float :=
  let larger := if x.abs < y.abs then y.abs else x.abs
  let smaller := if x.abs < y.abs then x.abs else y.abs
  if x.isInf || y.isInf then infinity
  else if x.isNaN || y.isNaN then x + y
  else if smaller ≤ larger * digitBound then larger + smaller
  else if largeBound < larger then
    euclid (larger * powerOfTwo (-600)) (smaller * powerOfTwo (-600)) * powerOfTwo 600
  else if smaller < smallBound then
    euclid (larger * powerOfTwo 600) (smaller * powerOfTwo 600) * powerOfTwo (-600)
  else euclid larger smaller

/-- The sign bit. -/
def isNegative (x : Float) : Bool :=
  x.toBits ≥ 0x8000000000000000

/-- A key that orders all floating-point numbers: negative ones by falling, others
by rising magnitude, with the undefined value at the end. -/
def orderKey (x : Float) : Nat :=
  let word := x.toBits.toNat
  if isNegative x then Nat.pow 2 64 - 1 - word else Nat.pow 2 63 + word

/-- The larger of two numbers; an undefined operand is ignored. -/
def max (x y : Float) : Float :=
  if x.isNaN then y else if y.isNaN then x else if x < y then y else x

end Float64

instance : Scalar Float where
  zero := 0.0
  one := 1.0
  decimal mantissa places := Float.ofScientific mantissa true places
  pi := 3.14159265358979323846
  abs := Float.abs
  sqrt := Float.sqrt
  sin := Float.sin
  cos := Float.cos
  atan2 := Float.atan2
  hypot := Float64.hypot
  le x y := x.le y
  lt x y := x.lt y
  totalLe x y := Float64.orderKey x ≤ Float64.orderKey y
  max := Float64.max
  isZero x := x == 0.0
  isNegative := Float64.isNegative
  same x y := x.toBits == y.toBits

instance : Written Float where
  plain := Decimal.NumberFormat.plain.write
  explicit := Decimal.NumberFormat.explicit.write
  fixed := Decimal.fixed

end QuditCircuits
