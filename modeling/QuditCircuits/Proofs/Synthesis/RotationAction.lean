import Mathlib.LinearAlgebra.Matrix.SemiringInverse
import QuditCircuits.Proofs.Amplitude
import QuditCircuits.Proofs.RealScalar
import QuditCircuits.Proofs.Synthesis.Plan
import QuditCircuits.Synthesis.Pulse

/-!
# The action of operators built from square roots

A vector gives every basis state of the qubits an amplitude. An operator on a target acts
on it where a condition on the other qubits holds (`guarded`), one fiber of basis states
that differ in the target at a time. A flip moves the amplitudes of basis states. The steps
of the square-root construction act as the operator where all controls are at level one
(`RotationStep.exists_rotate`).
-/

namespace QuditCircuits

variable {A Q : Type} [CommRing A] [DecidableEq Q]

/-! ## Guarded operators -/

/-- A matrix that acts on a target in the basis states where a condition holds. -/
def guarded (guard : (Q → Bool) → Bool) (matrix : Matrix Bool Bool A) (target : Q)
    (vector : (Q → Bool) → A) : (Q → Bool) → A := fun state =>
  if guard state then
    ∑ level, matrix (state target) level * vector (Function.update state target level)
  else vector state

/-- The amplitudes of the basis states that differ from a given one in a target only. -/
def fiber (vector : (Q → Bool) → A) (state : Q → Bool) (target : Q) : Bool → A := fun level =>
  vector (Function.update state target level)

omit [CommRing A] in
/-- A vector is determined by what it is over each setting of the other qubits. -/
theorem ext_fiber (target : Q) {first second : (Q → Bool) → A}
    (same : ∀ state, fiber first state target = fiber second state target) : first = second := by
  funext state
  simpa [fiber] using congrFun (same state) (state target)

open Matrix in
/-- A guard that ignores the target lets the matrix act on a whole fiber or not at all. -/
theorem fiber_guarded {guard : (Q → Bool) → Bool} {target : Q}
    (independent : ∀ state level, guard (Function.update state target level) = guard state)
    (matrix : Matrix Bool Bool A) (vector : (Q → Bool) → A) (state : Q → Bool) :
    fiber (guarded guard matrix target vector) state target =
      (if guard state then matrix else 1) *ᵥ fiber vector state target := by
  funext level
  by_cases holds : guard state = true
  · simp [fiber, guarded, independent, holds, mulVec, dotProduct]
  · simp [fiber, guarded, independent, holds]

/-- Moving the amplitudes by a change of other qubits that undoes itself, before and after
a guarded matrix, moves the guard. -/
theorem guarded_conj {guard : (Q → Bool) → Bool} {move : (Q → Bool) → Q → Bool} {target : Q}
    (undone : ∀ state, move (move state) = state) (kept : ∀ state, move state target = state target)
    (commutes : ∀ state level,
      move (Function.update state target level) = Function.update (move state) target level)
    (matrix : Matrix Bool Bool A) (vector : (Q → Bool) → A) :
    guarded guard matrix target (vector ∘ move) ∘ move =
      guarded (guard ∘ move) matrix target vector := by
  funext state
  simp only [guarded, Function.comp_apply, kept, commutes, undone]

/-- **The cycle of a square root.** The root where one condition holds, its inverse where
exactly one of two does, and the root where the other does are the square where both do. -/
theorem guarded_cycle {first second : (Q → Bool) → Bool} {target : Q}
    (firstIndependent : ∀ state level, first (Function.update state target level) = first state)
    (secondIndependent : ∀ state level,
      second (Function.update state target level) = second state)
    {square root inverse : Matrix Bool Bool A} (squares : root * root = square)
    (cancels : inverse * root = 1) (vector : (Q → Bool) → A) :
    guarded first root target
        (guarded (fun state => second state ^^ first state) inverse target
          (guarded second root target vector)) =
      guarded (fun state => first state && second state) square target vector := by
  have cancels' : root * inverse = 1 := mul_eq_one_comm.mp cancels
  refine ext_fiber target fun state => ?_
  rw [fiber_guarded firstIndependent, fiber_guarded (by simp [firstIndependent, secondIndependent]),
    fiber_guarded secondIndependent, fiber_guarded (by simp [firstIndependent, secondIndependent]),
    Matrix.mulVec_mulVec, Matrix.mulVec_mulVec]
  cases first state <;> cases second state <;> simp [squares, cancels, cancels']

/-- The matrix that exchanges both levels. -/
def levelExchange : Matrix Bool Bool A := Matrix.of fun row col => if row = col then 0 else 1

/-- The guarded exchange of levels moves amplitudes as a flip does. -/
theorem guarded_levelExchange {controls : List Q} {target : Q} (vector : (Q → Bool) → A) :
    guarded (fun state => controls.all state) levelExchange target vector =
      vector ∘ (Flip.many controls target).act := by
  funext state
  by_cases holds : controls.all state = true
  · cases level : state target <;>
      simp [guarded, levelExchange, Flip.act, Flip.target, Flip.controls, holds, level]
  · simp [guarded, Flip.act, Flip.target, Flip.controls, holds]

/-- **One more control.** A root under a last control, its inverse under that control
between two flips of it, and the root under the other controls are the square under all. -/
theorem guarded_flip_cycle {rest : List Q} {last target : Q}
    (distinct : (rest ++ [last, target]).Nodup) {square root inverse : Matrix Bool Bool A}
    (squares : root * root = square) (cancels : inverse * root = 1) (vector : (Q → Bool) → A) :
    guarded (fun state => rest.all state) root target
        (guarded (· last) inverse target
          (guarded (· last) root target vector ∘ (Flip.many rest last).act) ∘
            (Flip.many rest last).act) =
      guarded (fun state => (rest ++ [last]).all state) square target vector := by
  have outside : target ∉ rest := by grind
  have apart : target ≠ last := by grind
  have undone : ∀ state, (Flip.many rest last).act ((Flip.many rest last).act state) = state :=
    Flip.act_act (by grind [Flip.controls, Flip.target])
  have commutes : ∀ state level, (Flip.many rest last).act (Function.update state target level) =
      Function.update ((Flip.many rest last).act state) target level := by
    intro state level
    simp only [Flip.act, Flip.target, Flip.controls, all_update_of_notMem outside,
      Function.update_of_ne apart.symm]
    exact Function.update_comm apart _ _ _
  have moved : (fun state : Q → Bool => state last) ∘ (Flip.many rest last).act =
      fun state => state last ^^ rest.all state :=
    funext fun state => Flip.act_target
  rw [guarded_conj undone (fun state => Flip.act_of_ne apart) commutes, moved,
    guarded_cycle (fun state level => all_update_of_notMem outside)
      (fun state level => Function.update_of_ne apart.symm _ _) squares cancels]
  simp

/-! ## Steps -/

namespace RotationStep

variable {M : Type}

/-- The vector after a step, for given matrices of the operators. -/
def act (matrix : M → Matrix Bool Bool A) (vector : (Q → Bool) → A) :
    RotationStep M Q → (Q → Bool) → A
  | .apply operator target => guarded (fun _ => true) (matrix operator) target vector
  | .applyIf operator control target => guarded (· control) (matrix operator) target vector
  | .flip target => vector ∘ (Flip.free target).act
  | .cnot control target => vector ∘ (Flip.cnot control target).act

/-- The vector after a list of steps. -/
def run (matrix : M → Matrix Bool Bool A) (steps : List (RotationStep M Q))
    (vector : (Q → Bool) → A) : (Q → Bool) → A :=
  steps.foldl (act matrix) vector

@[simp] theorem run_nil {matrix : M → Matrix Bool Bool A} {vector : (Q → Bool) → A} :
    run matrix [] vector = vector := rfl

@[simp] theorem run_cons {matrix : M → Matrix Bool Bool A} {step : RotationStep M Q}
    {steps : List (RotationStep M Q)} {vector : (Q → Bool) → A} :
    run matrix (step :: steps) vector = run matrix steps (act matrix vector step) := rfl

@[simp] theorem run_append {matrix : M → Matrix Bool Bool A}
    {first second : List (RotationStep M Q)} {vector : (Q → Bool) → A} :
    run matrix (first ++ second) vector = run matrix second (run matrix first vector) :=
  List.foldl_append

/-- Steps that act as one flip each act as the flips in reverse order, which is how
amplitudes move. -/
theorem exists_run_flatten {matrix : M → Matrix Bool Bool A} {P : Flip Q → Prop}
    {expand : {flip : Flip Q // P flip} → Except Fault (List (RotationStep M Q))}
    (each : ∀ flip holds, ∃ steps, expand ⟨flip, holds⟩ = .ok steps ∧
      ∀ vector : (Q → Bool) → A, run matrix steps vector = vector ∘ flip.act)
    (flips : List {flip : Flip Q // P flip}) :
    ∃ lists, flips.mapM expand = .ok lists ∧ ∀ vector : (Q → Bool) → A,
      run matrix lists.flatten vector = vector ∘ Flip.run (flips.map Subtype.val).reverse := by
  induction flips with
  | nil => exact ⟨[], rfl, fun vector => rfl⟩
  | cons flip flips ih =>
      obtain ⟨steps, stepsOk, stepsAction⟩ := each flip.1 flip.2
      obtain ⟨lists, listsOk, listsAction⟩ := ih
      refine ⟨steps :: lists, ?_, fun vector => ?_⟩
      · simp only [List.mapM_cons, stepsOk, listsOk, bind, Except.bind]
        rfl
      · funext state
        simp [stepsAction, listsAction]

/-- Two rounds of flips, with a step before each of them and other steps after both. -/
theorem exists_run_around {matrix : M → Matrix Bool Bool A} {flips : List (Flip Q)}
    {expand : {flip : Flip Q // flip ∈ flips} → Except Fault (List (RotationStep M Q))}
    (each : ∀ flip member, ∃ steps, expand ⟨flip, member⟩ = .ok steps ∧
      ∀ vector : (Q → Bool) → A, run matrix steps vector = vector ∘ flip.act)
    {move : (Q → Bool) → Q → Bool} (moves : ∀ state, Flip.run flips.reverse state = move state)
    {later : Except Fault (List (RotationStep M Q))} {remaining : List (RotationStep M Q)}
    (laterOk : later = .ok remaining) {before between : RotationStep M Q}
    {result : ((Q → Bool) → A) → (Q → Bool) → A} (action : ∀ vector, run matrix remaining
      (act matrix (act matrix vector before ∘ move) between ∘ move) = result vector) :
    ∃ steps, (do
        let flipped ← flips.attach.mapM expand
        let remaining ← later
        return before :: (flipped.flatten ++ between :: (flipped.flatten ++ remaining))) =
          .ok steps ∧ ∀ vector, run matrix steps vector = result vector := by
  obtain ⟨lists, listsOk, moved⟩ := exists_run_flatten each flips.attach
  have pulled : ∀ vector : (Q → Bool) → A, run matrix lists.flatten vector = vector ∘ move := by
    intro vector
    rw [moved, List.attach_map_subtype_val]
    exact congrArg (vector ∘ ·) (funext moves)
  refine ⟨_, by rw [listsOk, laterOk]; rfl, fun vector => ?_⟩
  rw [run_cons, run_append, pulled, run_cons, run_append, pulled, action]

variable [RootedOperator M]

/-- The chosen root of an operator squares to it, and its adjoint undoes it. -/
structure HasExactRoot (matrix : M → Matrix Bool Bool A) (operator : M) : Prop where
  square : matrix (RootedOperator.root operator) * matrix (RootedOperator.root operator) =
    matrix operator
  cancels : matrix (RootedOperator.adjoint (RootedOperator.root operator)) *
    matrix (RootedOperator.root operator) = 1

/-- What is emitted acts with the operator where all controls are set, if the roots that are taken
are exact. -/
theorem exists_rotate {matrix : M → Matrix Bool Bool A}
    (operator : M) (controls : List Q) (target : Q) (borrowed : List Q)
    (distinct : (controls ++ target :: borrowed).Nodup)
    (exchanges : matrix (RootedOperator.flip : M) = levelExchange)
    (roots : ∀ count, count + 2 ≤ controls.length →
      HasExactRoot matrix (RootedOperator.root^[count] operator))
    (flipRoot : 3 ≤ controls.length → HasExactRoot matrix (RootedOperator.flip : M)) :
    ∃ steps, rotate operator controls target borrowed = .ok steps ∧
      ∀ vector, run matrix steps vector =
        guarded (fun state => controls.all state) (matrix operator) target vector := by
  fun_induction rotate operator controls target borrowed with
  | case1 operator target borrowed => exact ⟨_, rfl, fun vector => rfl⟩
  | case2 operator target borrowed control =>
      refine ⟨_, rfl, fun vector => ?_⟩
      simp [run, act]
  | case3 operator target borrowed first second others rest last fault failed =>
      have whole : first :: second :: others = rest ++ [last] :=
        (List.dropLast_append_getLast (List.cons_ne_nil _ _)).symm
      rw [whole, List.append_assoc] at distinct
      obtain ⟨flips, planned, _⟩ := Flip.exists_plan rest last (target :: borrowed) distinct
      rw [planned] at failed
      cases failed
  | case4 operator target borrowed first second others rest last root flips planned toffolis
      manys remainder =>
      have whole : first :: second :: others = rest ++ [last] :=
        (List.dropLast_append_getLast (List.cons_ne_nil _ _)).symm
      have shorter : rest.length + 1 = (first :: second :: others).length := by
        rw [whole, List.length_append, List.length_singleton]
      rw [whole, List.append_assoc] at distinct
      have freedDistinct : (rest ++ target :: last :: borrowed).Nodup := by grind
      obtain ⟨remaining, remainingOk, remainingAction⟩ := remainder freedDistinct
        (fun count few => roots (count + 1) (by omega)) (fun many => flipRoot (by omega))
      have moves (controls : List Q) (target : Q) (vector : (Q → Bool) → A) :
          guarded (fun state => controls.all state) (matrix RootedOperator.flip) target vector =
            vector ∘ (Flip.many controls target).act := by
        rw [exchanges, guarded_levelExchange]
      -- The flips have at most two controls, so that their own root is the only one taken.
      have flipRoots : ∀ controls : List Q, controls.length ≤ 2 →
          controls.length ≤ rest.length → ∀ count, count + 2 ≤ controls.length →
            HasExactRoot matrix (RootedOperator.root^[count] (RootedOperator.flip : M)) := by
        intro controls few bound count enough
        have none : count = 0 := by omega
        subst none
        exact flipRoot (by omega)
      refine exists_run_around (fun flip member => ?_)
        (Flip.run_reverse_of_plan distinct planned) remainingOk fun vector => ?_
      · have few := Flip.controls_length_le_two_of_plan (List.cons_ne_nil _ _) planned member
        have bound := Flip.controls_length_le_of_plan planned member
        have apart := Flip.nodup_of_plan distinct planned member
        cases flip with
        | free target => exact ⟨_, rfl, fun vector => rfl⟩
        | cnot control target => exact ⟨_, rfl, fun vector => rfl⟩
        | toffoli first second target =>
            have asFlip := toffolis first second target member apart (flipRoots _ few bound)
              fun many => absurd (Nat.le_trans many few) (by decide)
            simp only [moves] at asFlip
            exact asFlip
        | many controls target =>
            have asFlip := manys controls target member apart (flipRoots _ few bound)
              fun many => absurd (Nat.le_trans many few) (by decide)
            simp only [moves] at asFlip
            exact asFlip
      · have rootExact := roots 0 (by simp)
        rw [remainingAction, whole]
        exact guarded_flip_cycle (distinct.sublist (by simp)) rootExact.square rootExact.cancels
          vector

end RotationStep

/-! ## Matrices -/

section Corner

variable {R : Type} [Scalar R]

/-- The 2×2 corner of a matrix, by the levels of a qubit. -/
def DenseMatrix.corner (matrix : Unitary R) : Matrix Bool Bool (Amplitude R) :=
  Matrix.of fun row col => matrix.entry row.toNat col.toNat

variable [ExactScalar R]

/-- The matrix of the flip exchanges the levels. -/
theorem DenseMatrix.corner_flip :
    DenseMatrix.corner (Unitary.flip : Unitary R) = levelExchange := by
  ext row col
  cases row <;> cases col <;> rfl

/-- **The square-root construction is exact.** If every root that is taken squares to its
matrix and is undone by its adjoint, the steps act as the matrix on the target where all
controls are at level one, and leave all other qubits as they are. -/
theorem RotationStep.rotate_acts_where_controls_hold (matrix : Unitary R) (controls : List Q)
    (target : Q) (borrowed : List Q) (distinct : (controls ++ target :: borrowed).Nodup)
    (roots : ∀ count, count + 2 ≤ controls.length →
      HasExactRoot DenseMatrix.corner (DenseMatrix.squareRoot^[count] matrix))
    (flipRoot : 3 ≤ controls.length →
      HasExactRoot DenseMatrix.corner (Unitary.flip : Unitary R)) :
    ∃ steps, rotate matrix controls target borrowed = .ok steps ∧
      ∀ (vector : (Q → Bool) → Amplitude R) (state : Q → Bool),
        run DenseMatrix.corner steps vector state =
          if controls.all state then
            ∑ level, DenseMatrix.corner matrix (state target) level *
              vector (Function.update state target level)
          else vector state := by
  obtain ⟨steps, stepsOk, action⟩ := exists_rotate matrix controls target borrowed distinct
    DenseMatrix.corner_flip roots flipRoot
  exact ⟨steps, stepsOk, fun vector state => congrFun (action vector) state⟩

end Corner

section Toffoli

open DenseMatrix

/-- The shift and the divisor of the root of the flip. -/
theorem rootTerms_flip :
    rootTerms Amplitude.sqrt (Unitary.flip : Unitary ℝ) = (⟨0, -1⟩, ⟨1, -1⟩) := by
  have det : (Unitary.flip : Unitary ℝ).cornerDet = ⟨-1, 0⟩ := by
    apply Amplitude.ext
    · change (0 : ℝ) * 0 - 0 * 0 - (1 * 1 - 0 * 0) = -1
      norm_num
    · change (0 : ℝ) * 0 + 0 * 0 - (1 * 0 + 0 * 1) = 0
      norm_num
  have trace : (Unitary.flip : Unitary ℝ).cornerTrace = ⟨0, 0⟩ :=
    Amplitude.ext (zero_add 0) (zero_add 0)
  have shift : Amplitude.sqrt (⟨-1, 0⟩ : Amplitude ℝ) = ⟨0, 1⟩ := by
    rw [Amplitude.sqrt_of_neg (by norm_num), neg_neg, Real.sqrt_one]
  have above : (⟨0, 0⟩ + Amplitude.scale ⟨0, 1⟩ Scalar.two : Amplitude ℝ) = ⟨0, 2⟩ := by
    apply Amplitude.ext
    · change (0 : ℝ) + 0 * (1 + 1) = 0
      norm_num
    · change (0 : ℝ) + 1 * (1 + 1) = 2
      norm_num
  have below : (⟨0, 0⟩ + Amplitude.scale (-⟨0, 1⟩) Scalar.two : Amplitude ℝ) = ⟨0, -2⟩ := by
    apply Amplitude.ext
    · change (0 : ℝ) + -0 * (1 + 1) = 0
      norm_num
    · change (0 : ℝ) + -1 * (1 + 1) = -2
      norm_num
  have divisor : Amplitude.sqrt (⟨0, 2⟩ : Amplitude ℝ) = ⟨1, 1⟩ := by
    rw [Amplitude.sqrt_imaginary two_ne_zero]
    norm_num
  have opposite : Amplitude.sqrt (⟨0, -2⟩ : Amplitude ℝ) = ⟨1, -1⟩ := by
    rw [Amplitude.sqrt_imaginary (by norm_num)]
    norm_num
  have tie : Scalar.totalLe (Amplitude.norm ⟨1, 1⟩) (Amplitude.norm (⟨1, -1⟩ : Amplitude ℝ)) =
      true := by
    simp [Scalar.totalLe, Amplitude.norm, Scalar.hypot]
  simp only [rootTerms, det, trace, shift, above, below, divisor, opposite, tie, if_true]
  exact Prod.ext (Amplitude.ext neg_zero rfl) rfl

theorem corner_squareRoot_flip : corner (squareRoot (Unitary.flip : Unitary ℝ)) =
    Matrix.of fun row col => if row = col then ⟨1 / 2, -1 / 2⟩ else ⟨1 / 2, 1 / 2⟩ := by
  ext row col
  have entries : corner (squareRoot (Unitary.flip : Unitary ℝ)) row col =
      (if row = col then (0 + ⟨0, -1⟩ : Amplitude ℝ) else 1) / ⟨1, -1⟩ := by
    rw [squareRoot, squareRootWith, rootTerms_flip]
    refine (entry_ofFn (Bool.toNat_lt row) (Bool.toNat_lt col)).trans ?_
    cases row <;> cases col <;> rfl
  rw [entries]
  cases row <;> cases col <;> apply Amplitude.ext
  all_goals
    simp [HDiv.hDiv, Div.div]
    norm_num

theorem corner_adjoint_squareRoot_flip :
    corner (adjoint (squareRoot (Unitary.flip : Unitary ℝ))) =
      Matrix.of fun row col => if row = col then ⟨1 / 2, 1 / 2⟩ else ⟨1 / 2, -1 / 2⟩ := by
  ext row col
  have entries : corner (adjoint (squareRoot (Unitary.flip : Unitary ℝ))) row col =
      (corner (squareRoot (Unitary.flip : Unitary ℝ)) col row).conj :=
    entry_ofFn (Bool.toNat_lt row) (Bool.toNat_lt col)
  rw [entries, corner_squareRoot_flip]
  cases row <;> cases col <;> simp [Amplitude.conj]
  all_goals norm_num

/-- The chosen root of the exchange of two levels, over real amplitudes. -/
theorem hasExactRoot_flip : RotationStep.HasExactRoot corner (Unitary.flip : Unitary ℝ) := by
  constructor
  · refine (congrArg₂ (· * ·) corner_squareRoot_flip corner_squareRoot_flip).trans ?_
    ext row col
    rw [Matrix.mul_apply, Fintype.sum_bool, corner_flip, levelExchange]
    cases row <;> cases col <;> apply Amplitude.ext
    all_goals norm_num
  · refine (congrArg₂ (· * ·) corner_adjoint_squareRoot_flip corner_squareRoot_flip).trans ?_
    ext row col
    rw [Matrix.mul_apply, Fintype.sum_bool]
    cases row <;> cases col <;> apply Amplitude.ext
    all_goals norm_num

/-- Two controls of an exchange, which are built from its root. -/
theorem RotationStep.rotate_acts_where_controls_hold_toffoli :
    ([0, 1] ++ 2 :: [] : List Nat).Nodup ∧
    (∀ count, count + 2 ≤ ([0, 1] : List Nat).length →
      HasExactRoot corner (squareRoot^[count] (Unitary.flip : Unitary ℝ))) ∧
    (3 ≤ ([0, 1] : List Nat).length → HasExactRoot corner (Unitary.flip : Unitary ℝ)) ∧
    ∃ steps, rotate (Unitary.flip : Unitary ℝ) [0, 1] 2 [] = .ok steps ∧
      ∀ (vector : (Nat → Bool) → Amplitude ℝ) (state : Nat → Bool),
        run corner steps vector state =
          if [0, 1].all state then
            ∑ level, corner Unitary.flip (state 2) level * vector (Function.update state 2 level)
          else vector state := by
  have roots : ∀ count, count + 2 ≤ ([0, 1] : List Nat).length →
      HasExactRoot corner (squareRoot^[count] (Unitary.flip : Unitary ℝ)) := by
    intro count few
    have none : count = 0 := Nat.le_zero.mp (Nat.le_of_add_le_add_right few)
    subst none
    exact hasExactRoot_flip
  exact ⟨by decide, roots, fun _ => hasExactRoot_flip, rotate_acts_where_controls_hold Unitary.flip
    [0, 1] 2 [] (by decide) roots fun _ => hasExactRoot_flip⟩

end Toffoli

end QuditCircuits
