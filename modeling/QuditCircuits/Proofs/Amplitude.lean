import Mathlib.Algebra.Ring.MinimalAxioms
import Mathlib.Tactic.Ring
import QuditCircuits.Amplitude

/-!
# Exact amplitudes

Exact scalars are a commutative ring, and so are the complex numbers over them. The
operations of both rings are those of the model, so that the lemmas on sums and products
in a ring apply to its matrices.
-/

namespace QuditCircuits

variable {R : Type}

/-- Amplitudes with equal parts are equal. -/
theorem Amplitude.ext {z w : Amplitude R} (re : z.re = w.re) (im : z.im = w.im) : z = w := by
  cases z
  cases w
  congr

variable [Scalar R] [ExactScalar R]

/-- The ring of exact scalars. -/
abbrev ExactScalar.commRing (R : Type) [Scalar R] [ExactScalar R] : CommRing R where
  __ := CommRing.ofMinimalAxioms ExactScalar.add_assoc ExactScalar.zero_add
    ExactScalar.neg_add_cancel ExactScalar.mul_assoc ExactScalar.mul_comm ExactScalar.one_mul
    (ExactScalar.mul_add (R := R))
  sub a b := a - b
  sub_eq_add_neg := ExactScalar.sub_eq_add_neg

namespace Amplitude

attribute [local instance] ExactScalar.commRing

instance : CommRing (Amplitude R) where
  __ := CommRing.ofMinimalAxioms (R := Amplitude R)
    (fun z w v => ext (add_assoc _ _ _) (add_assoc _ _ _))
    (fun z => ext (zero_add _) (zero_add _))
    (fun z => ext (neg_add_cancel _) (neg_add_cancel _))
    (fun z w v => ext (by simp only [mul_re, mul_im]; ring) (by simp only [mul_re, mul_im]; ring))
    (fun z w => ext (by simp only [mul_re]; ring) (by simp only [mul_im]; ring))
    (fun z => ext (by simp only [mul_re, one_re, one_im]; ring)
      (by simp only [mul_im, one_re, one_im]; ring))
    (fun z w v => ext (by simp only [mul_re, add_re, add_im]; ring)
      (by simp only [mul_im, add_re, add_im]; ring))
  sub z w := z - w
  sub_eq_add_neg z w := ext (sub_eq_add_neg _ _) (sub_eq_add_neg _ _)

end Amplitude

end QuditCircuits
