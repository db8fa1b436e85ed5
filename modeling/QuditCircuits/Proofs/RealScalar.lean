import Mathlib.Analysis.SpecialFunctions.Complex.Arg
import QuditCircuits.Amplitude

/-!
# Real numbers as exact scalars

The real numbers with their usual functions and order. They are the exact scalars that
floating-point numbers approximate, so a law of exact scalars is one of real amplitudes.
-/

namespace QuditCircuits

noncomputable section

instance : Scalar ℝ where
  decimal mantissa places := mantissa / 10 ^ places
  pi := Real.pi
  abs x := |x|
  sqrt := Real.sqrt
  sin := Real.sin
  cos := Real.cos
  atan2 y x := Complex.arg ⟨x, y⟩
  hypot x y := Real.sqrt (x * x + y * y)
  le x y := x ≤ y
  lt x y := x < y
  totalLe x y := x ≤ y
  max x y := x ⊔ y
  isZero x := x = 0
  isNegative x := x < 0
  same x y := x = y

instance : ExactScalar ℝ where
  add_assoc := add_assoc
  add_comm := add_comm
  zero_add := zero_add
  neg_add_cancel := neg_add_cancel
  sub_eq_add_neg := sub_eq_add_neg
  mul_assoc := mul_assoc
  mul_comm := mul_comm
  one_mul := one_mul
  mul_add := mul_add
  same_iff _ _ := decide_eq_true_iff

end

/-- Two among the scalars is the real number two. -/
theorem Scalar.two_eq : (Scalar.two : ℝ) = 2 :=
  one_add_one_eq_two

namespace Amplitude

/-- The root of a negative number is imaginary. -/
theorem sqrt_of_neg {x : ℝ} (negative : x < 0) :
    Amplitude.sqrt ⟨x, 0⟩ = ⟨0, Real.sqrt (-x)⟩ := by
  have real : Scalar.isZero (0 : ℝ) = true := by simp [Scalar.isZero]
  have sign : Scalar.isNegative x = true := by simpa [Scalar.isNegative] using negative
  have plus : Scalar.isNegative (0 : ℝ) = false := by simp [Scalar.isNegative]
  simp only [Amplitude.sqrt, real, sign, plus, if_true]
  rfl

/-- The root of an imaginary number lies on a diagonal. -/
theorem sqrt_imaginary {y : ℝ} (nonzero : y ≠ 0) : Amplitude.sqrt ⟨0, y⟩ =
    ⟨Real.sqrt (|y| / 2), if y < 0 then -Real.sqrt (|y| / 2) else Real.sqrt (|y| / 2)⟩ := by
  have imaginary : Scalar.isZero y = false := by simpa [Scalar.isZero] using nonzero
  have real : Scalar.isZero (0 : ℝ) = true := by simp [Scalar.isZero]
  simp only [Amplitude.sqrt, imaginary, real, Scalar.two_eq, if_true]
  simp [Scalar.isNegative, Scalar.abs, Scalar.sqrt]

end Amplitude

end QuditCircuits
