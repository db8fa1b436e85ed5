import Mathlib.Data.List.Forall2
import Mathlib.Data.List.GetD
import Mathlib.Tactic.Ring
import QuditCircuits.Register.Index

/-!
# Mixed-radix numbers without bounds

`number` and `levelsOf` are the conversions between the levels of a register and the
number of a basis state, over all natural numbers. The checked conversions agree
with them as soon as the levels lie within the shape and the number of basis states
fits a word (`flatIndex_eq_ok`, `digits_eq_ok`). Both directions are inverse to each
other, and the numbers of a register with appended qudits are quotient and remainder
(`number_append`, `levelsOf_append`).
-/

namespace QuditCircuits

namespace Machine

/-- A word that passed the check of its range is the number that was checked. -/
theorem eq_of_checked {number word : Nat}
    (checked :
      (if number < wordRange then Except.ok number else .error Fault.overflow) = .ok word) :
    word = number ∧ number < wordRange := by
  split at checked
  case isTrue small =>
    cases checked
    exact ⟨rfl, small⟩
  case isFalse => cases checked

/-- Positive factors whose product fits a word are multiplied without overflow. -/
theorem productFrom_eq_ok {start : Nat} {factors : List Nat}
    (positive : ∀ factor ∈ factors, 0 < factor) (fits : start * factors.prod < wordRange) :
    productFrom start factors = .ok (start * factors.prod) := by
  induction factors generalizing start with
  | nil => simp [productFrom]
  | cons factor factors ih =>
      rw [List.prod_cons, ← Nat.mul_assoc] at fits ⊢
      have rest : ∀ other ∈ factors, 0 < other := fun other member =>
        positive other (List.mem_cons_of_mem _ member)
      have head : start * factor < wordRange :=
        Nat.lt_of_le_of_lt
          (Nat.le_mul_of_pos_right _ (List.prod_pos_iff_forall_pos_nat.mpr rest)) fits
      rw [productFrom, mul_eq_ok head]
      exact ih rest fits

/-- The product of positive words is the checked product when it fits a word. -/
theorem product_eq_ok {factors : List Nat} (positive : ∀ factor ∈ factors, 0 < factor)
    (fits : factors.prod < wordRange) : product factors = .ok factors.prod := by
  rw [product, productFrom_eq_ok positive (by rwa [Nat.one_mul]), Nat.one_mul]

/-- A product that does not fit a word is noticed at one of its factors. -/
theorem productFrom_eq_overflow {start : Nat} {factors : List Nat}
    (positive : ∀ factor ∈ factors, 0 < factor) (inRange : start < wordRange)
    (large : ¬start * factors.prod < wordRange) :
    productFrom start factors = .error .overflow := by
  induction factors generalizing start with
  | nil => exact absurd (by simpa using inRange) large
  | cons factor factors ih =>
      rw [List.prod_cons, ← Nat.mul_assoc] at large
      have rest : ∀ other ∈ factors, 0 < other := fun other member =>
        positive other (List.mem_cons_of_mem _ member)
      unfold productFrom mul
      split
      case isTrue small => exact ih rest small large
      case isFalse => rfl

/-- The checked product of positive words overflows when the product does not fit. -/
theorem product_eq_overflow {factors : List Nat} (positive : ∀ factor ∈ factors, 0 < factor)
    (large : ¬factors.prod < wordRange) : product factors = .error .overflow :=
  productFrom_eq_overflow positive (by decide) (by rwa [Nat.one_mul])

/-- A continued product that succeeds is the product, and it fits a word. -/
theorem productFrom_eq_ok_imp {start result : Nat} {factors : List Nat}
    (inRange : start < wordRange) (computed : productFrom start factors = .ok result) :
    result = start * factors.prod ∧ result < wordRange := by
  induction factors generalizing start with
  | nil =>
      cases computed
      exact ⟨by simp, inRange⟩
  | cons factor factors ih =>
      obtain ⟨next, multiplied, computed⟩ := bind_eq_ok_iff.mp computed
      obtain ⟨rfl, small⟩ := eq_of_checked multiplied
      rw [List.prod_cons, ← Nat.mul_assoc]
      exact ih small computed

/-- A checked product that succeeds is the product, and it fits a word. -/
theorem eq_of_product_eq_ok {factors : List Nat} {result : Nat}
    (computed : product factors = .ok result) :
    result = factors.prod ∧ factors.prod < wordRange := by
  obtain ⟨equal, small⟩ := productFrom_eq_ok_imp (by decide) computed
  rw [Nat.one_mul] at equal
  exact ⟨equal, equal ▸ small⟩

theorem reserve_eq_ok_iff {count width : Nat} :
    reserve count width = .ok () ↔ count * width < addressRange := by
  unfold reserve
  split <;> simp [*]

/-- Selecting positions inside a list reads them one by one. -/
theorem select_eq_ok {α : Type} {items : List α} (default : α) {positions : List Nat}
    (inside : ∀ position ∈ positions, position < items.length) :
    select items positions = .ok (positions.map (items.getD · default)) := by
  induction positions with
  | nil => rfl
  | cons position positions ih =>
      have here := inside position List.mem_cons_self
      have rest := ih fun other member => inside other (List.mem_cons_of_mem _ member)
      unfold select at rest ⊢
      rw [List.mapM_cons, nth_eq_ok here, rest, List.map_cons, List.getD_eq_getElem _ _ here]
      rfl

end Machine

namespace Register

/-- Levels that name a basis state: one below the dimension of every qudit. -/
abbrev Within (levels shape : List Nat) : Prop :=
  List.Forall₂ (· < ·) levels shape

/-- The number of a list of levels, without a bound. -/
def number : List Nat → List Nat → Nat
  | level :: levels, _ :: shape => level * shape.prod + number levels shape
  | _, _ => 0

/-- The levels of a number, without a bound. -/
def levelsOf (index : Nat) : List Nat → List Nat
  | [] => []
  | dimension :: shape => index / shape.prod % dimension :: levelsOf index shape

@[simp] theorem length_levelsOf {index : Nat} {shape : List Nat} :
    (levelsOf index shape).length = shape.length := by
  induction shape with
  | nil => rfl
  | cons dimension shape ih => simp [levelsOf, ih]

theorem Within.pos {levels shape : List Nat} (within : Within levels shape) :
    ∀ dimension ∈ shape, 0 < dimension := by
  induction within with
  | nil => simp
  | cons below _ ih =>
      intro dimension member
      rcases List.mem_cons.mp member with rfl | member
      · exact Nat.zero_lt_of_lt below
      · exact ih dimension member

theorem Within.append {first second firstShape secondShape : List Nat}
    (firstWithin : Within first firstShape) (secondWithin : Within second secondShape) :
    Within (first ++ second) (firstShape ++ secondShape) :=
  List.rel_append firstWithin secondWithin

/-- The number of levels is below the number of basis states. -/
theorem number_lt {levels shape : List Nat} (within : Within levels shape) :
    number levels shape < shape.prod := by
  induction within with
  | nil => simp [number]
  | @cons level dimension levels shape below _ ih =>
      calc level * shape.prod + number levels shape
          < level * shape.prod + shape.prod := Nat.add_lt_add_left ih _
        _ = (level + 1) * shape.prod := (Nat.succ_mul _ _).symm
        _ ≤ dimension * shape.prod := Nat.mul_le_mul_right _ below
        _ = (dimension :: shape).prod := List.prod_cons.symm

/-- Continuing a number by levels within a shape stays inside the words as long as
the numbers of the continued register do. -/
theorem flatIndexFrom_eq_ok {leading : Nat} {levels shape : List Nat}
    (within : Within levels shape) (fits : (leading + 1) * shape.prod ≤ Machine.wordRange) :
    flatIndexFrom leading levels shape = .ok (leading * shape.prod + number levels shape) := by
  induction within generalizing leading with
  | nil => simp [flatIndexFrom, number]
  | @cons level dimension levels shape below within ih =>
      rw [List.prod_cons] at fits ⊢
      have positive : 0 < shape.prod := List.prod_pos_iff_forall_pos_nat.mpr (Within.pos within)
      have next : (leading * dimension + level + 1) * shape.prod ≤ Machine.wordRange := by
        refine Nat.le_trans ?_ fits
        rw [← Nat.mul_assoc]
        refine Nat.mul_le_mul_right _ ?_
        rw [Nat.succ_mul]
        omega
      have small : leading * dimension + level < Machine.wordRange :=
        Nat.lt_of_lt_of_le (Nat.lt_succ_self _)
          (Nat.le_trans (Nat.le_mul_of_pos_right _ positive) next)
      have product := Machine.mul_eq_ok (Nat.lt_of_le_of_lt (Nat.le_add_right _ _) small)
      unfold flatIndexFrom
      rw [product]
      change (Machine.add (leading * dimension) level >>= _) = _
      rw [Machine.add_eq_ok small]
      refine (ih next).trans (congrArg Except.ok ?_)
      rw [number]
      ring

/-- The checked number of levels within a shape whose basis states can be counted. -/
theorem flatIndex_eq_ok {levels shape : List Nat} (within : Within levels shape)
    (fits : shape.prod ≤ Machine.wordRange) :
    flatIndex levels shape = .ok (number levels shape) := by
  rw [flatIndex, flatIndexFrom_eq_ok within (by rwa [Nat.zero_add, Nat.one_mul]), Nat.zero_mul,
    Nat.zero_add]

/-- The checked conversion gives the levels, and what is left of the number. -/
theorem digitsWithin_eq_ok {index : Nat} {shape : List Nat}
    (positive : ∀ dimension ∈ shape, 0 < dimension) :
    digitsWithin index shape = .ok (levelsOf index shape, index / shape.prod) := by
  induction shape with
  | nil => simp [digitsWithin, levelsOf]
  | cons dimension shape ih =>
      have rest := ih fun other member => positive other (List.mem_cons_of_mem _ member)
      have nonzero : dimension ≠ 0 := Nat.ne_of_gt (positive dimension List.mem_cons_self)
      unfold digitsWithin
      rw [rest]
      simp only [bind, Except.bind, nonzero, if_false, pure, Except.pure, levelsOf,
        List.prod_cons, Nat.div_div_eq_div_mul, Nat.mul_comm dimension]

/-- The checked levels of a number in a register without empty qudits. -/
theorem digits_eq_ok {index : Nat} {shape : List Nat}
    (positive : ∀ dimension ∈ shape, 0 < dimension) :
    digits index shape = .ok (levelsOf index shape) := by
  rw [digits, digitsWithin_eq_ok positive]
  rfl

/-- The levels of a number are below the dimensions. -/
theorem within_levelsOf {index : Nat} {shape : List Nat}
    (positive : ∀ dimension ∈ shape, 0 < dimension) : Within (levelsOf index shape) shape := by
  induction shape with
  | nil => exact List.Forall₂.nil
  | cons dimension shape ih =>
      exact List.Forall₂.cons (Nat.mod_lt _ (positive dimension List.mem_cons_self))
        (ih fun other member => positive other (List.mem_cons_of_mem _ member))

/-- The number of the levels of a number is its remainder by the number of basis states. -/
theorem number_levelsOf_mod {index : Nat} {shape : List Nat} :
    number (levelsOf index shape) shape = index % shape.prod := by
  induction shape with
  | nil => simp [number, levelsOf, Nat.mod_one]
  | cons dimension shape ih =>
      rw [levelsOf, number, ih, List.prod_cons, Nat.mul_comm dimension, Nat.mod_mul,
        Nat.mul_comm, Nat.add_comm]

/-- The levels of a number of a basis state have that number. -/
theorem number_levelsOf {index : Nat} {shape : List Nat} (inside : index < shape.prod) :
    number (levelsOf index shape) shape = index := by
  rw [number_levelsOf_mod, Nat.mod_eq_of_lt inside]

/-- Only the remainder by the number of basis states takes part in the levels. -/
theorem levelsOf_mul_add {index multiple : Nat} {shape : List Nat} :
    levelsOf (multiple * shape.prod + index) shape = levelsOf index shape := by
  induction shape generalizing multiple with
  | nil => rfl
  | cons dimension shape ih =>
      rw [levelsOf, levelsOf, List.prod_cons, ← Nat.mul_assoc, ih]
      rcases Nat.eq_zero_or_pos shape.prod with empty | positive
      · simp [empty]
      · rw [Nat.mul_comm (multiple * dimension), Nat.mul_add_div positive, Nat.mul_comm multiple,
          Nat.mul_add_mod]

/-- Numbers with the same remainder have the same levels. -/
theorem levelsOf_mod {index : Nat} {shape : List Nat} :
    levelsOf (index % shape.prod) shape = levelsOf index shape := by
  conv_rhs => rw [← Nat.div_add_mod' index shape.prod, levelsOf_mul_add]

/-- Levels within a shape are those of their number. -/
theorem levelsOf_number {levels shape : List Nat} (within : Within levels shape) :
    levelsOf (number levels shape) shape = levels := by
  induction within with
  | nil => rfl
  | @cons level dimension levels shape below within ih =>
      have rest := number_lt within
      have positive : 0 < shape.prod := Nat.zero_lt_of_lt rest
      rw [number, levelsOf, levelsOf_mul_add, ih, Nat.mul_comm, Nat.mul_add_div positive,
        Nat.div_eq_of_lt rest, Nat.add_zero, Nat.mod_eq_of_lt below]

/-- The number of appended levels has the numbers of the parts for quotient and remainder. -/
theorem number_append {first second firstShape secondShape : List Nat}
    (length : first.length = firstShape.length) :
    number (first ++ second) (firstShape ++ secondShape) =
      number first firstShape * secondShape.prod + number second secondShape := by
  induction first generalizing firstShape with
  | nil =>
      cases List.length_eq_zero_iff.mp length.symm
      simp [number]
  | cons level first ih =>
      cases firstShape with
      | nil => cases length
      | cons dimension firstShape =>
          simp only [List.cons_append, number, List.prod_append,
            ih (Nat.succ.inj length)]
          ring

theorem levelsOf_append {index : Nat} {firstShape secondShape : List Nat} :
    levelsOf index (firstShape ++ secondShape) =
      levelsOf (index / secondShape.prod) firstShape ++ levelsOf index secondShape := by
  induction firstShape with
  | nil => rfl
  | cons dimension firstShape ih =>
      rw [List.cons_append, levelsOf, levelsOf, ih, List.prod_append, Nat.div_div_eq_div_mul,
        Nat.mul_comm firstShape.prod]
      rfl

end Register

end QuditCircuits
