import Mathlib.Analysis.SpecialFunctions.Complex.Arg
import QuditCircuits.Proofs.Amplitude
import QuditCircuits.Proofs.RealScalar

/-!
# Real amplitudes as complex numbers

Amplitudes over the real numbers are the complex numbers, with the same sums, products,
quotients, phases and absolute values. The principal root of an amplitude squares to it.
-/

namespace QuditCircuits.Amplitude

noncomputable section

/-- Amplitudes over the real numbers as complex numbers. -/
def toComplex : Amplitude ℝ ≃+* ℂ where
  toFun z := ⟨z.re, z.im⟩
  invFun z := ⟨z.re, z.im⟩
  left_inv _ := rfl
  right_inv _ := rfl
  map_mul' z w := Complex.ext (Complex.mul_re ⟨z.re, z.im⟩ ⟨w.re, w.im⟩).symm
    (Complex.mul_im ⟨z.re, z.im⟩ ⟨w.re, w.im⟩).symm
  map_add' _ _ := rfl

/-- Real numbers as amplitudes, with sums and products. -/
def realHom : ℝ →+* Amplitude ℝ where
  toFun x := ofReal x
  map_zero' := rfl
  map_one' := rfl
  map_add' x y := Amplitude.ext rfl (add_zero 0).symm
  map_mul' x y := Amplitude.ext (by simp [ofReal]) (by simp [ofReal])

end

variable {z w : Amplitude ℝ}

@[simp] theorem toComplex_realHom (x : ℝ) : toComplex (realHom x) = x := rfl

@[simp] theorem toComplex_div : toComplex (z / w) = toComplex z / toComplex w := by
  apply Complex.ext
  · rw [Complex.div_re, ← add_div]
    rfl
  · rw [Complex.div_im, ← sub_div]
    rfl

/-- Scaling is the product with a real amplitude. -/
theorem scale_eq_mul_realHom (z : Amplitude ℝ) (x : ℝ) : z.scale x = z * realHom x :=
  Amplitude.ext (by simp [scale, realHom, ofReal]) (by simp [scale, realHom, ofReal])

@[simp] theorem toComplex_twice : toComplex (z.scale Scalar.two) = 2 * toComplex z := by
  rw [Scalar.two_eq, scale_eq_mul_realHom, map_mul, toComplex_realHom, mul_comm,
    Complex.ofReal_ofNat]

theorem norm_eq : z.norm = ‖toComplex z‖ := by
  rw [Complex.norm_def, Complex.normSq_apply]
  rfl

/-- A phase is the exponential of its angle. -/
theorem toComplex_cis (angle : ℝ) : toComplex (cis angle) = Complex.exp (angle * Complex.I) := by
  apply Complex.ext
  · exact (Complex.exp_ofReal_mul_I_re angle).symm
  · exact (Complex.exp_ofReal_mul_I_im angle).symm

/-- An amplitude is its absolute value in the direction of its angle. -/
theorem cis_arg_mul_norm (z : Amplitude ℝ) : cis z.arg * realHom z.norm = z := by
  apply toComplex.injective
  rw [map_mul, toComplex_cis, toComplex_realHom, norm_eq, mul_comm]
  exact Complex.norm_mul_exp_arg_mul_I (toComplex z)

theorem cis_zero : cis (0 : ℝ) = 1 := by
  apply toComplex.injective
  rw [toComplex_cis, Complex.ofReal_zero, zero_mul, Complex.exp_zero, map_one]

/-- The phase of a sum of angles is the product of the phases. -/
theorem cis_add (first second : ℝ) : cis (first + second) = cis first * cis second := by
  apply toComplex.injective
  rw [map_mul, toComplex_cis, toComplex_cis, toComplex_cis, ← Complex.exp_add, ← add_mul,
    Complex.ofReal_add]

/-- The polar root is a square root. -/
theorem polarRoot_mul_self (z : Amplitude ℝ) : z.polarRoot * z.polarRoot = z := by
  have angle : cis (z.arg / 2) * cis (z.arg / 2) = cis z.arg := by
    rw [← cis_add, add_halves]
  have length : realHom (Scalar.sqrt z.norm) * realHom (Scalar.sqrt z.norm) = realHom z.norm := by
    have nonneg : 0 ≤ z.norm := norm_eq ▸ norm_nonneg (toComplex z)
    rw [← map_mul]
    exact congrArg realHom (Real.mul_self_sqrt nonneg)
  rw [polarRoot, Scalar.two_eq, scale_eq_mul_realHom, mul_mul_mul_comm, angle, length,
    cis_arg_mul_norm]

/-- The principal root is a root. -/
theorem sqrt_mul_self (z : Amplitude ℝ) : z.sqrt * z.sqrt = z := by
  obtain ⟨x, y⟩ := z
  rcases eq_or_ne y 0 with rfl | notReal
  · rcases lt_or_ge x 0 with negative | nonneg
    · rw [sqrt_of_neg negative]
      apply Amplitude.ext
      · simp [Real.mul_self_sqrt (neg_nonneg.mpr negative.le)]
      · simp
    · have root : Amplitude.sqrt ⟨x, 0⟩ = ⟨Real.sqrt x, 0⟩ := by
        simp [Amplitude.sqrt, Scalar.isZero, Scalar.isNegative, Scalar.sqrt, nonneg.not_gt]
      rw [root]
      apply Amplitude.ext
      · simp [Real.mul_self_sqrt nonneg]
      · simp
  · rcases eq_or_ne x 0 with rfl | notImaginary
    · rw [sqrt_imaginary notReal]
      have square : Real.sqrt (|y| / 2) * Real.sqrt (|y| / 2) = |y| / 2 :=
        Real.mul_self_sqrt (by positivity)
      generalize Real.sqrt (|y| / 2) = root at square ⊢
      split
      case isTrue negative =>
        rw [abs_of_neg negative] at square
        apply Amplitude.ext
        · simp
        · change root * -root + -root * root = y
          linarith
      case isFalse nonneg =>
        rw [abs_of_nonneg (not_lt.mp nonneg)] at square
        apply Amplitude.ext
        · simp
        · change root * root + root * root = y
          linarith
    · have polar : Amplitude.sqrt ⟨x, y⟩ = polarRoot ⟨x, y⟩ := by
        simp [Amplitude.sqrt, Scalar.isZero, notReal, notImaginary]
      rw [polar, polarRoot_mul_self]

end QuditCircuits.Amplitude
