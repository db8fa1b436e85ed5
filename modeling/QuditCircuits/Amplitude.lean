import QuditCircuits.Scalar

/-!
# Amplitudes

Complex numbers over real scalars, with the product and quotient in components.
-/

namespace QuditCircuits

/-- The complex number `re + im · i`. -/
structure Amplitude (R : Type) where
  re : R
  im : R
deriving DecidableEq, Repr

namespace Amplitude

variable {R : Type}

section Arithmetic

variable [Scalar R]

/-- A real number as an amplitude. -/
def ofReal (x : R) : Amplitude R := ⟨x, 0⟩

instance : Zero (Amplitude R) := ⟨⟨0, 0⟩⟩

instance : One (Amplitude R) := ⟨⟨1, 0⟩⟩

instance : Add (Amplitude R) := ⟨fun z w => ⟨z.re + w.re, z.im + w.im⟩⟩

instance : Sub (Amplitude R) := ⟨fun z w => ⟨z.re - w.re, z.im - w.im⟩⟩

instance : Neg (Amplitude R) := ⟨fun z => ⟨-z.re, -z.im⟩⟩

instance : Mul (Amplitude R) :=
  ⟨fun z w => ⟨z.re * w.re - z.im * w.im, z.re * w.im + z.im * w.re⟩⟩

instance : Div (Amplitude R) := ⟨fun z w =>
  let square := w.re * w.re + w.im * w.im
  ⟨(z.re * w.re + z.im * w.im) / square, (z.im * w.re - z.re * w.im) / square⟩⟩

@[simp] theorem zero_re : (0 : Amplitude R).re = 0 := rfl

@[simp] theorem zero_im : (0 : Amplitude R).im = 0 := rfl

@[simp] theorem one_re : (1 : Amplitude R).re = 1 := rfl

@[simp] theorem one_im : (1 : Amplitude R).im = 0 := rfl

@[simp] theorem add_re (z w : Amplitude R) : (z + w).re = z.re + w.re := rfl

@[simp] theorem add_im (z w : Amplitude R) : (z + w).im = z.im + w.im := rfl

@[simp] theorem mul_re (z w : Amplitude R) : (z * w).re = z.re * w.re - z.im * w.im := rfl

@[simp] theorem mul_im (z w : Amplitude R) : (z * w).im = z.re * w.im + z.im * w.re := rfl

/-- Product with a real number. -/
def scale (z : Amplitude R) (x : R) : Amplitude R := ⟨z.re * x, z.im * x⟩

/-- Quotient by a real number. -/
def unscale (z : Amplitude R) (x : R) : Amplitude R := ⟨z.re / x, z.im / x⟩

/-- The complex conjugate. -/
def conj (z : Amplitude R) : Amplitude R := ⟨z.re, -z.im⟩

/-- The absolute value. -/
def norm (z : Amplitude R) : R := Scalar.hypot z.re z.im

/-- The square of the absolute value. -/
def normSquare (z : Amplitude R) : R := z.re * z.re + z.im * z.im

/-- The sum of the absolute values of both parts. -/
def taxicab (z : Amplitude R) : R := Scalar.abs z.re + Scalar.abs z.im

/-- Whether both parts are zero. -/
def isZero (z : Amplitude R) : Bool := Scalar.isZero z.re && Scalar.isZero z.im

/-- The number of absolute value one on the same ray from zero; for zero it is one. -/
def direction (z : Amplitude R) : Amplitude R :=
  if Scalar.isZero z.norm then 1 else z.unscale z.norm

/-- The phase angle. -/
def arg (z : Amplitude R) : R := Scalar.atan2 z.im z.re

/-- The number of absolute value one with the given phase angle. -/
def cis (angle : R) : Amplitude R := ⟨Scalar.cos angle, Scalar.sin angle⟩

/-- The square root with half the phase angle. -/
def polarRoot (z : Amplitude R) : Amplitude R :=
  (cis (z.arg / Scalar.two)).scale (Scalar.sqrt z.norm)

/-- The principal square root. Real and imaginary numbers have roots in closed
form that keep the sign of a zero; others are rooted in polar form. -/
def sqrt (z : Amplitude R) : Amplitude R :=
  if Scalar.isZero z.im then
    if Scalar.isNegative z.re then
      let root := Scalar.sqrt (-z.re)
      ⟨0, if Scalar.isNegative z.im then -root else root⟩
    else ⟨Scalar.sqrt z.re, z.im⟩
  else if Scalar.isZero z.re then
    let root := Scalar.sqrt (Scalar.abs z.im / Scalar.two)
    ⟨root, if Scalar.isNegative z.im then -root else root⟩
  else z.polarRoot

/-- Whether two amplitudes are stored alike. -/
def same (z w : Amplitude R) : Bool :=
  Scalar.same z.re w.re && Scalar.same z.im w.im

end Arithmetic

end Amplitude

end QuditCircuits
