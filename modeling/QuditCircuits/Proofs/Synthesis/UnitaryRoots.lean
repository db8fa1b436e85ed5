import Mathlib.LinearAlgebra.UnitaryGroup
import Mathlib.LinearAlgebra.Matrix.Adjugate
import QuditCircuits.Proofs.ComplexAmplitude
import QuditCircuits.Proofs.DenseMatrix.Algebra
import QuditCircuits.Proofs.Synthesis.RotationAction

/-!
# Square roots of unitary matrices

A 2×2 matrix with trace `τ` and determinant `δ` satisfies `U² = τ U - δ`, so `(U + s) / t` squares
to it if `s² = δ` and `t² = τ + 2 s`. For a unitary matrix the larger of the two divisors does not
vanish, because they could only vanish together with the determinant. The product of `U + s` with
its adjoint is the multiple of the identity by `t²` over `s`, which is not negative and has the
absolute value of `t²`, so the root is unitary again (`shiftedQuotient_mul_star`).
-/

namespace QuditCircuits

open Matrix

/-! ## Complex matrices -/

section Complex

variable {U : Matrix (Fin 2) (Fin 2) ℂ} {s t : ℂ}

/-- The matrix with a shift added to its diagonal, divided by a number. -/
noncomputable def shiftedQuotient (U : Matrix (Fin 2) (Fin 2) ℂ) (s t : ℂ) :
    Matrix (Fin 2) (Fin 2) ℂ :=
  t⁻¹ • (U + s • 1)

/-- The matrix of cofactors of a 2×2 matrix. -/
theorem adjugate_eq_trace_sub (U : Matrix (Fin 2) (Fin 2) ℂ) : U.adjugate = U.trace • 1 - U := by
  rw [adjugate_fin_two, trace_fin_two]
  ext row col
  fin_cases row <;> fin_cases col <;> simp

/-- The equation of a 2×2 matrix with its trace and determinant. -/
theorem mul_self_eq_trace_sub_det (U : Matrix (Fin 2) (Fin 2) ℂ) :
    U * U = U.trace • U - U.det • 1 := by
  have cofactors := mul_adjugate U
  rw [adjugate_eq_trace_sub, mul_sub, mul_smul_comm, mul_one] at cofactors
  rw [← cofactors, sub_sub_cancel]

/-- The shifted quotient is a square root, by the equation of a matrix and its trace and
determinant. -/
theorem shiftedQuotient_mul_self (shift : s * s = U.det) (divisor : t * t = U.trace + 2 * s)
    (nonzero : t ≠ 0) : shiftedQuotient U s t * shiftedQuotient U s t = U := by
  have square : (U + s • 1) * (U + s • 1) = (t * t) • U := by
    calc (U + s • 1) * (U + s • 1)
        = U * U + (2 * s) • U + (s * s) • (1 : Matrix (Fin 2) (Fin 2) ℂ) := by
          simp only [add_mul, mul_add, smul_mul_assoc, mul_smul_comm, mul_one, one_mul]
          module
      _ = (t * t) • U := by
          rw [mul_self_eq_trace_sub_det, shift, divisor]
          module
  rw [shiftedQuotient, smul_mul_smul_comm, square, smul_smul, ← mul_inv,
    inv_mul_cancel₀ (mul_ne_zero nonzero nonzero), one_smul]

/-- The cofactors of a unitary matrix are those of its adjoint up to the determinant. -/
theorem det_smul_star_eq (unitary : U ∈ unitaryGroup (Fin 2) ℂ) :
    U.det • star U = U.trace • 1 - U := by
  calc U.det • star U = U.adjugate * U * star U := by rw [adjugate_mul, smul_mul_assoc, one_mul]
    _ = U.adjugate := by rw [mul_assoc, mem_unitaryGroup_iff.mp unitary, mul_one]
    _ = U.trace • 1 - U := adjugate_eq_trace_sub U

/-- A shift that squares to the determinant of a unitary matrix is a phase. -/
theorem norm_shift_eq_one (unitary : U ∈ unitaryGroup (Fin 2) ℂ) (shift : s * s = U.det) :
    ‖s‖ = 1 := by
  have det : ‖U.det‖ = 1 := CStarRing.norm_of_mem_unitary (det_of_mem_unitary unitary)
  rw [← shift, norm_mul] at det
  exact (mul_self_eq_one_iff.mp det).resolve_right (by linarith [norm_nonneg s])

/-- With its adjoint a shifted unitary matrix makes a multiple of the identity. -/
theorem shifted_mul_star (unitary : U ∈ unitaryGroup (Fin 2) ℂ) (shift : s * s = U.det)
    (divisor : t * t = U.trace + 2 * s) :
    (U + s • 1) * star (U + s • 1) = (star s * (t * t)) • 1 := by
  have phase : s * star s = 1 := by
    rw [Complex.star_def, Complex.mul_conj', norm_shift_eq_one unitary shift, Complex.ofReal_one,
      one_pow]
  have turned : s • star U = star s • (U.trace • 1 - U) := by
    rw [← det_smul_star_eq unitary, smul_smul, ← shift, ← mul_assoc, mul_comm (star s), phase,
      one_mul]
  calc (U + s • 1) * star (U + s • 1)
      = U * star U + star s • U + s • star U + (s * star s) • (1 : Matrix (Fin 2) (Fin 2) ℂ) := by
        simp only [star_add, star_smul, star_one, add_mul, mul_add, smul_mul_assoc, mul_smul_comm,
          mul_one, one_mul]
        module
    _ = (2 * (s * star s) + star s * U.trace) • (1 : Matrix (Fin 2) (Fin 2) ℂ) := by
        rw [mem_unitaryGroup_iff.mp unitary, turned, phase]
        module
    _ = (star s * (t * t)) • 1 := by
        rw [divisor]
        congr 1
        ring

open scoped ComplexOrder in
/-- The multiple of the identity that a matrix makes with its adjoint is not negative. -/
theorem eq_norm_of_mul_star {W : Matrix (Fin 2) (Fin 2) ℂ} {c : ℂ}
    (multiple : W * star W = c • 1) : c = ‖c‖ := by
  have corner : c = ∑ col, W 0 col * star (W 0 col) := by
    simpa [mul_apply] using (congrFun₂ multiple 0 0).symm
  have nonneg : 0 ≤ c := corner ▸ Finset.sum_nonneg fun col _ => mul_star_self_nonneg (W 0 col)
  exact Complex.eq_coe_norm_of_nonneg nonneg

/-- The quotient of a shifted unitary matrix by the divisor is unitary. -/
theorem shiftedQuotient_mul_star (unitary : U ∈ unitaryGroup (Fin 2) ℂ) (shift : s * s = U.det)
    (divisor : t * t = U.trace + 2 * s) (nonzero : t ≠ 0) :
    shiftedQuotient U s t * star (shiftedQuotient U s t) = 1 := by
  have multiple := shifted_mul_star unitary shift divisor
  have length : star s * (t * t) = t * star t := by
    rw [eq_norm_of_mul_star multiple, norm_mul, norm_mul, norm_star,
      norm_shift_eq_one unitary shift, one_mul, Complex.star_def, Complex.mul_conj',
      Complex.ofReal_mul, sq]
  rw [shiftedQuotient, star_smul, smul_mul_smul_comm, multiple, length, smul_smul, star_inv₀,
    mul_mul_mul_comm, inv_mul_cancel₀ nonzero, inv_mul_cancel₀ (star_ne_zero.mpr nonzero), one_mul,
    one_smul]

/-- Both divisors only vanish together with the determinant. -/
theorem divisor_ne_zero {t' : ℂ} (unitary : U ∈ unitaryGroup (Fin 2) ℂ) (shift : s * s = U.det)
    (divisor : t * t = U.trace + 2 * s) (opposite : t' * t' = U.trace - 2 * s)
    (larger : ‖t'‖ ≤ ‖t‖) : t ≠ 0 := by
  rintro rfl
  have none : t' = 0 := by simpa using larger
  have vanishes : s = 0 := by
    rw [none] at opposite
    linear_combination (opposite - divisor) / 4
  have phase := norm_shift_eq_one unitary shift
  rw [vanishes, norm_zero] at phase
  exact zero_ne_one phase

end Complex

/-! ## Corners -/

namespace DenseMatrix

section Corner

variable {R : Type} [Scalar R] {matrix left right : Unitary R}

/-- A matrix on a qubit is determined by its four entries. -/
theorem eq_of_corner (leftRows : left.rows = 2) (leftCols : left.cols = 2)
    (rightRows : right.rows = 2) (rightCols : right.cols = 2)
    (same : corner left = corner right) : left = right := by
  refine ext_entry (leftRows.trans rightRows.symm) (leftCols.trans rightCols.symm)
    fun row col rowInside colInside => ?_
  have level : ∀ index < 2, ∃ level : Bool, level.toNat = index := by decide
  obtain ⟨rowLevel, rfl⟩ := level row (leftRows ▸ rowInside)
  obtain ⟨colLevel, rfl⟩ := level col (leftCols ▸ colInside)
  exact congrFun₂ same rowLevel colLevel

theorem corner_identity : corner (identity 2 : Unitary R) = 1 := by
  ext row col
  refine (entry_ofFn (Bool.toNat_lt row) (Bool.toNat_lt col)).trans ?_
  rw [Matrix.one_apply]
  exact if_congr (by cases row <;> cases col <;> decide) rfl rfl

/-- A 2×2 matrix that is undone by its adjoint. -/
structure IsQubitUnitary (matrix : Unitary R) : Prop where
  rows : matrix.rows = 2
  cols : matrix.cols = 2
  undone : mul matrix.adjoint matrix = identity 2

variable [ExactScalar R]

/-- The entries of a product are those of the product of the entries. -/
theorem corner_mul (rows : left.rows = 2) (meets : left.cols = 2) (cols : right.cols = 2) :
    corner (mul left right) = corner left * corner right := by
  ext row col
  have rowInside : row.toNat < left.rows := (Bool.toNat_lt row).trans_eq rows.symm
  have colInside : col.toNat < right.cols := (Bool.toNat_lt col).trans_eq cols.symm
  have product := entry_mul rowInside colInside
  rw [meets, Finset.sum_range_succ, Finset.sum_range_one, add_comm] at product
  rw [Matrix.mul_apply, Fintype.sum_bool]
  exact product

end Corner

section ComplexCorner

variable {matrix left right : Unitary ℝ}

/-- The 2×2 corner of a matrix of real amplitudes, with complex entries. -/
noncomputable def complexCorner (matrix : Unitary ℝ) : Matrix (Fin 2) (Fin 2) ℂ :=
  ((corner matrix).map Amplitude.toComplex).submatrix finTwoEquiv finTwoEquiv

theorem complexCorner_apply (matrix : Unitary ℝ) (row col : Fin 2) :
    complexCorner matrix row col = Amplitude.toComplex (matrix.entry row col) := by
  fin_cases row <;> fin_cases col <;> rfl

/-- Complex numbers determine the amplitudes. -/
theorem complexCorner_injective (same : complexCorner left = complexCorner right) :
    corner left = corner right := by
  ext row col
  have entries := congrFun₂ same (finTwoEquiv.symm row) (finTwoEquiv.symm col)
  simpa [complexCorner] using entries

theorem complexCorner_mul (rows : left.rows = 2) (meets : left.cols = 2) (cols : right.cols = 2) :
    complexCorner (mul left right) = complexCorner left * complexCorner right := by
  rw [complexCorner, corner_mul rows meets cols, Matrix.map_mul]
  exact (Matrix.submatrix_mul_equiv _ _ finTwoEquiv finTwoEquiv finTwoEquiv).symm

/-- The adjoint of a matrix on a qubit is the adjoint of the complex matrix. -/
theorem complexCorner_adjoint (rows : matrix.rows = 2) (cols : matrix.cols = 2) :
    complexCorner matrix.adjoint = star (complexCorner matrix) := by
  ext row col
  rw [Matrix.star_apply, complexCorner_apply, complexCorner_apply]
  exact congrArg Amplitude.toComplex (entry_ofFn (row.isLt.trans_eq cols.symm)
    (col.isLt.trans_eq rows.symm))

theorem complexCorner_identity : complexCorner (identity 2) = 1 := by
  rw [complexCorner, corner_identity]
  simp

theorem complexCorner_square (topLeft topRight bottomLeft bottomRight : Amplitude ℝ) :
    complexCorner (square topLeft topRight bottomLeft bottomRight) =
      !![Amplitude.toComplex topLeft, Amplitude.toComplex topRight;
        Amplitude.toComplex bottomLeft, Amplitude.toComplex bottomRight] := by
  ext row col
  fin_cases row <;> fin_cases col <;> rfl

/-- The determinant that is computed is that of the complex matrix. -/
theorem toComplex_cornerDet :
    Amplitude.toComplex matrix.cornerDet = (complexCorner matrix).det := by
  rw [det_fin_two, cornerDet, map_sub, map_mul, map_mul]
  rfl

theorem toComplex_cornerTrace :
    Amplitude.toComplex matrix.cornerTrace = (complexCorner matrix).trace := by
  rw [trace_fin_two, cornerTrace, map_add]
  rfl

/-- A unitary on a qubit is a unitary complex matrix. -/
theorem IsQubitUnitary.mem_unitaryGroup (unitary : IsQubitUnitary matrix) :
    complexCorner matrix ∈ unitaryGroup (Fin 2) ℂ := by
  rw [mem_unitaryGroup_iff', ← complexCorner_adjoint unitary.rows unitary.cols,
    ← complexCorner_mul unitary.cols unitary.rows unitary.cols, unitary.undone,
    complexCorner_identity]

end ComplexCorner

/-! ## Roots -/

/-- A matrix that squares to a given one and is undone by its adjoint. -/
structure IsUnitaryRoot (matrix root : Unitary ℝ) : Prop where
  square : mul root root = matrix
  undone : mul root root.adjoint = identity 2

/-- The pairs of a shift and a divisor between which the square root chooses. -/
noncomputable def candidates (root : Amplitude ℝ → Amplitude ℝ) (matrix : Unitary ℝ) :
    List (Amplitude ℝ × Amplitude ℝ) :=
  [root matrix.cornerDet, -root matrix.cornerDet].map fun shift =>
    (shift, root (matrix.cornerTrace + shift.scale Scalar.two))

/-- The corner with a shift added to its diagonal, divided by a divisor. -/
noncomputable def rootFor (terms : Amplitude ℝ × Amplitude ℝ) (matrix : Unitary ℝ) : Unitary ℝ :=
  ofFn matrix.rows matrix.cols fun row col =>
    (if row = col ∧ row < 2 then matrix.entry row col + terms.1 else matrix.entry row col) / terms.2

theorem squareRootWith_eq (root : Amplitude ℝ → Amplitude ℝ) (matrix : Unitary ℝ) :
    squareRootWith root matrix = rootFor (rootTerms root matrix) matrix := rfl

variable {root : Amplitude ℝ → Amplitude ℝ} {matrix : Unitary ℝ}

/-- What is chosen is a candidate, and none has a larger divisor. -/
theorem rootTerms_largest (root : Amplitude ℝ → Amplitude ℝ) (matrix : Unitary ℝ) :
    rootTerms root matrix ∈ candidates root matrix ∧
      ∀ other ∈ candidates root matrix, other.2.norm ≤ (rootTerms root matrix).2.norm := by
  obtain ⟨first, second, listed⟩ : ∃ first second, candidates root matrix = [first, second] :=
    ⟨_, _, rfl⟩
  have chosen : rootTerms root matrix =
      if Scalar.totalLe first.2.norm second.2.norm then second else first := by
    cases listed
    rfl
  rw [listed, chosen]
  split
  case isTrue smaller =>
    refine ⟨by simp, List.forall_mem_cons.mpr ⟨of_decide_eq_true smaller, ?_⟩⟩
    exact List.forall_mem_singleton.mpr le_rfl
  case isFalse larger =>
    have opposite := not_le.mp (mt decide_eq_true larger)
    refine ⟨by simp, List.forall_mem_cons.mpr ⟨le_rfl, ?_⟩⟩
    exact List.forall_mem_singleton.mpr opposite.le

/-- The root for given terms is the shifted quotient. -/
theorem complexCorner_rootFor (terms : Amplitude ℝ × Amplitude ℝ) (rows : matrix.rows = 2)
    (cols : matrix.cols = 2) : complexCorner (rootFor terms matrix) =
      shiftedQuotient (complexCorner matrix) (Amplitude.toComplex terms.1)
        (Amplitude.toComplex terms.2) := by
  ext row col
  have entry : (rootFor terms matrix).entry row col =
      (if (row : Nat) = col ∧ (row : Nat) < 2 then matrix.entry row col + terms.1
        else matrix.entry row col) / terms.2 :=
    entry_ofFn (row.isLt.trans_eq rows.symm) (col.isLt.trans_eq cols.symm)
  rw [complexCorner_apply, entry, Amplitude.toComplex_div, shiftedQuotient, Matrix.smul_apply,
    smul_eq_mul, mul_comm, ← div_eq_mul_inv]
  congr 1
  by_cases same : row = col
  · subst same
    rw [if_pos ⟨rfl, row.isLt⟩, map_add]
    simp [complexCorner_apply]
  · simp [complexCorner_apply, same, Fin.val_inj]

/-- A shift squares to the determinant, and with it goes a divisor that squares to the trace and
twice the shift. The other candidate has the opposite shift. -/
theorem exists_opposite (squares : ∀ z, root z * root z = z)
    {terms : Amplitude ℝ × Amplitude ℝ} (member : terms ∈ candidates root matrix) :
    terms.1 * terms.1 = matrix.cornerDet ∧
    terms.2 * terms.2 = matrix.cornerTrace + terms.1.scale Scalar.two ∧
    ∃ other ∈ candidates root matrix,
      other.2 * other.2 = matrix.cornerTrace + (-terms.1).scale Scalar.two := by
  obtain ⟨shift, signed, rfl⟩ := List.mem_map.mp member
  rcases List.mem_pair.mp signed with rfl | rfl
  · exact ⟨squares _, squares _, _, List.mem_map_of_mem (List.mem_pair.mpr (.inr rfl)), squares _⟩
  · refine ⟨(neg_mul_neg _ _).trans (squares _), squares _, _,
      List.mem_map_of_mem (List.mem_pair.mpr (.inl rfl)), ?_⟩
    rw [neg_neg]
    exact squares _

/-- A candidate with a largest divisor makes a unitary root. -/
theorem isUnitaryRoot_rootFor (squares : ∀ z, root z * root z = z)
    (unitary : IsQubitUnitary matrix) {terms : Amplitude ℝ × Amplitude ℝ}
    (member : terms ∈ candidates root matrix)
    (largest : ∀ other ∈ candidates root matrix, other.2.norm ≤ terms.2.norm) :
    terms.2 ≠ 0 ∧ IsUnitaryRoot matrix (rootFor terms matrix) := by
  have inGroup := unitary.mem_unitaryGroup
  obtain ⟨shift, divisor, other, otherMember, opposite⟩ := exists_opposite squares member
  replace shift := congrArg Amplitude.toComplex shift
  replace divisor := congrArg Amplitude.toComplex divisor
  replace opposite := congrArg Amplitude.toComplex opposite
  rw [map_mul, toComplex_cornerDet] at shift
  rw [map_mul, map_add, toComplex_cornerTrace, Amplitude.toComplex_twice] at divisor opposite
  rw [map_neg, mul_neg, ← sub_eq_add_neg] at opposite
  have larger := largest other otherMember
  rw [Amplitude.norm_eq, Amplitude.norm_eq] at larger
  have nonzero := divisor_ne_zero inGroup shift divisor opposite larger
  have rows : (rootFor terms matrix).rows = 2 := unitary.rows
  have cols : (rootFor terms matrix).cols = 2 := unitary.cols
  have corner := complexCorner_rootFor terms unitary.rows unitary.cols
  refine ⟨fun vanishes => nonzero (by rw [vanishes, map_zero]), ?_, ?_⟩
  · refine eq_of_corner rows cols unitary.rows unitary.cols (complexCorner_injective ?_)
    rw [complexCorner_mul rows cols cols, corner, shiftedQuotient_mul_self shift divisor nonzero]
  · refine eq_of_corner rows rows rfl rfl (complexCorner_injective ?_)
    rw [complexCorner_mul rows cols rows, complexCorner_adjoint rows cols, corner,
      complexCorner_identity, shiftedQuotient_mul_star inGroup shift divisor nonzero]

/-- The root that is chosen is unitary. -/
theorem isUnitaryRoot_squareRootWith (squares : ∀ z, root z * root z = z)
    (unitary : IsQubitUnitary matrix) :
    (rootTerms root matrix).2 ≠ 0 ∧ IsUnitaryRoot matrix (squareRootWith root matrix) := by
  obtain ⟨member, largest⟩ := rootTerms_largest root matrix
  rw [squareRootWith_eq]
  exact isUnitaryRoot_rootFor squares unitary member largest

/-- **The square root of a unitary matrix.** For any choice of complex roots the divisor that is
chosen for a 2×2 unitary matrix does not vanish, and the quotient squares to the matrix and is
undone by its adjoint. The same holds for either sign of the shift whose divisor is no smaller
than the other, so for both signs if they tie. -/
theorem square_root_of_unitary_is_unitary (squares : ∀ z, root z * root z = z)
    (unitary : IsQubitUnitary matrix) :
    ((rootTerms root matrix).2 ≠ 0 ∧ IsUnitaryRoot matrix (squareRootWith root matrix)) ∧
    ∀ terms ∈ candidates root matrix,
      (∀ other ∈ candidates root matrix, other.2.norm ≤ terms.2.norm) →
      terms.2 ≠ 0 ∧ IsUnitaryRoot matrix (rootFor terms matrix) := by
  refine ⟨isUnitaryRoot_squareRootWith squares unitary, ?_⟩
  intro terms member largest
  exact isUnitaryRoot_rootFor squares unitary member largest

/-- A matrix of four entries is unitary if its complex corner is. -/
theorem isQubitUnitary_square {topLeft topRight bottomLeft bottomRight : Amplitude ℝ}
    (undone : star (complexCorner (square topLeft topRight bottomLeft bottomRight)) *
      complexCorner (square topLeft topRight bottomLeft bottomRight) = 1) :
    IsQubitUnitary (square topLeft topRight bottomLeft bottomRight) where
  rows := rfl
  cols := rfl
  undone := by
    refine eq_of_corner rfl rfl rfl rfl (complexCorner_injective ?_)
    rw [complexCorner_mul rfl rfl rfl, complexCorner_adjoint rfl rfl, complexCorner_identity]
    exact undone

/-- The flip is a unitary on a qubit. -/
theorem isQubitUnitary_flip : IsQubitUnitary (Unitary.flip : Unitary ℝ) := by
  apply isQubitUnitary_square
  rw [complexCorner_square, map_zero, map_one]
  ext row col
  fin_cases row <;> fin_cases col <;> simp [mul_apply]

/-- The exchange of levels, for which both divisors tie, and the negative identity, for which one
divisor vanishes, with principal roots. -/
theorem square_root_of_unitary_is_unitary_principal :
    (∀ z : Amplitude ℝ, z.sqrt * z.sqrt = z) ∧
    IsQubitUnitary (Unitary.flip : Unitary ℝ) ∧
    (rootTerms Amplitude.sqrt (Unitary.flip : Unitary ℝ)).2 ≠ 0 ∧
    IsUnitaryRoot Unitary.flip (squareRoot (Unitary.flip : Unitary ℝ)) ∧
    IsQubitUnitary (square (-1) 0 0 (-1) : Unitary ℝ) ∧
    (rootTerms Amplitude.sqrt (square (-1) 0 0 (-1) : Unitary ℝ)).2 ≠ 0 ∧
    IsUnitaryRoot (square (-1) 0 0 (-1)) (squareRoot (square (-1) 0 0 (-1) : Unitary ℝ)) := by
  have negative : IsQubitUnitary (square (-1) 0 0 (-1) : Unitary ℝ) := by
    apply isQubitUnitary_square
    rw [complexCorner_square, map_zero, map_neg, map_one]
    ext row col
    fin_cases row <;> fin_cases col <;> simp [mul_apply]
  obtain ⟨flipNonzero, flipRoot⟩ :=
    (square_root_of_unitary_is_unitary Amplitude.sqrt_mul_self isQubitUnitary_flip).1
  obtain ⟨nonzero, root⟩ :=
    (square_root_of_unitary_is_unitary Amplitude.sqrt_mul_self negative).1
  exact ⟨Amplitude.sqrt_mul_self, isQubitUnitary_flip, flipNonzero, flipRoot, negative, nonzero,
    root⟩

/-! ## The construction without hypotheses on roots -/

variable {matrix : Unitary ℝ}

/-- A unitary root is undone by its adjoint from either side. -/
theorem IsUnitaryRoot.isQubitUnitary {root : Unitary ℝ} (isRoot : IsUnitaryRoot matrix root)
    (rows : root.rows = 2) (cols : root.cols = 2) : IsQubitUnitary root where
  rows := rows
  cols := cols
  undone := by
    refine eq_of_corner cols cols rfl rfl ?_
    have undone := congrArg corner isRoot.undone
    rw [corner_mul rows cols rows, corner_identity] at undone
    rw [corner_mul cols rows cols, corner_identity, mul_eq_one_comm.mp undone]

/-- The root of a unitary on a qubit is a unitary on a qubit. -/
theorem IsQubitUnitary.squareRoot (unitary : IsQubitUnitary matrix) :
    IsQubitUnitary matrix.squareRoot :=
  (isUnitaryRoot_squareRootWith Amplitude.sqrt_mul_self unitary).2.isQubitUnitary unitary.rows
    unitary.cols

/-- The principal root of a unitary matrix is exact. -/
theorem IsQubitUnitary.hasExactRoot (unitary : IsQubitUnitary matrix) :
    RotationStep.HasExactRoot corner matrix := by
  have isRoot := (isUnitaryRoot_squareRootWith Amplitude.sqrt_mul_self unitary).2
  have rooted : IsQubitUnitary matrix.squareRoot := unitary.squareRoot
  constructor
  · refine (corner_mul rooted.rows rooted.cols rooted.cols).symm.trans ?_
    exact congrArg corner isRoot.square
  · refine (corner_mul rooted.cols rooted.rows rooted.cols).symm.trans ?_
    exact (congrArg corner rooted.undone).trans corner_identity

end DenseMatrix

/-- **Every unitary matrix under controls.** Over exact real amplitudes the square-root
construction acts as the matrix on the target where all controls are at level one, and leaves all
other qubits as they are. -/
theorem RotationStep.exists_rotate_of_unitary {Q : Type} [DecidableEq Q] {matrix : Unitary ℝ}
    (unitary : DenseMatrix.IsQubitUnitary matrix) (controls : List Q) (target : Q)
    (borrowed : List Q) (distinct : (controls ++ target :: borrowed).Nodup) :
    ∃ steps, rotate matrix controls target borrowed = .ok steps ∧
      ∀ vector, run DenseMatrix.corner steps vector =
        guarded (fun state => controls.all state) matrix.corner target vector := by
  have roots : ∀ count, DenseMatrix.IsQubitUnitary (RootedOperator.root^[count] matrix) := by
    intro count
    induction count with
    | zero => exact unitary
    | succ count ih =>
        rw [Function.iterate_succ_apply']
        exact ih.squareRoot
  exact exists_rotate matrix controls target borrowed distinct DenseMatrix.corner_flip
    (fun count _ => (roots count).hasExactRoot)
    fun _ => DenseMatrix.isQubitUnitary_flip.hasExactRoot

end QuditCircuits
