import QuditCircuits.Proofs.Register.MixedRadix

/-!
# Numbering the basis states of a register

The numbers below the product of the dimensions are the basis states in lexicographic order:
every number has levels within the shape, every list of levels has a number, and both are
found again from each other. A number is built up from its leading levels on. The products and
sums that are met on the way (`intermediates`) lie below the product of the dimensions, so that
none of them leaves the words if that product does not.
-/

namespace QuditCircuits.Register

/-- The products and sums that are met when a number is continued by levels. -/
def intermediates (leading : Nat) : List Nat → List Nat → List Nat
  | level :: levels, dimension :: shape =>
      leading * dimension :: (leading * dimension + level) ::
        intermediates (leading * dimension + level) levels shape
  | _, _ => []

/-- A checked number has met words only. -/
theorem intermediates_lt_of_flatIndexFrom {leading number : Nat} {levels shape : List Nat}
    (computed : flatIndexFrom leading levels shape = .ok number) :
    ∀ value ∈ intermediates leading levels shape, value < Machine.wordRange := by
  fun_induction intermediates leading levels shape with
  | case1 leading level levels dimension shape ih =>
      simp only [flatIndexFrom, bind_eq_ok_iff] at computed
      obtain ⟨_, multiplied, _, added, computed⟩ := computed
      obtain ⟨rfl, productSmall⟩ := Machine.eq_of_checked multiplied
      obtain ⟨rfl, sumSmall⟩ := Machine.eq_of_checked added
      simp only [List.forall_mem_cons]
      exact ⟨productSmall, sumSmall, ih computed⟩
  | case2 => exact List.forall_mem_nil _

/-- Numbers of one register are ordered as their levels are, the first qudit first. -/
theorem number_lt_number {first second shape : List Nat} (firstWithin : Within first shape)
    (secondWithin : Within second shape) (ordered : first < second) :
    number first shape < number second shape := by
  induction firstWithin generalizing second with
  | nil =>
      cases secondWithin
      exact absurd ordered (List.lt_irrefl [])
  | @cons level dimension first shape _ firstWithin ih =>
      cases secondWithin with
      | @cons other _ second _ _ secondWithin =>
          rcases List.cons_lt_cons_iff.mp ordered with smaller | ⟨rfl, later⟩
          · calc level * shape.prod + number first shape
                < level * shape.prod + shape.prod := Nat.add_lt_add_left (number_lt firstWithin) _
              _ = (level + 1) * shape.prod := (Nat.succ_mul _ _).symm
              _ ≤ other * shape.prod := Nat.mul_le_mul_right _ smaller
              _ ≤ other * shape.prod + number second shape := Nat.le_add_right _ _
          · exact Nat.add_lt_add_left (ih secondWithin later) _

/-- **The basis states are numbered in lexicographic order.** In a register whose basis states a
word can count, every number below their count has levels within the shape, and they have that
number. All levels within the shape have a number below the count, no product or sum on the way
to it leaves the words, and it has those levels. Numbers grow strictly with the lexicographic
order of the levels, and those of a register in two parts are put together from the parts. -/
theorem levels_and_numbers_agree {shape : List Nat}
    (positive : ∀ dimension ∈ shape, 0 < dimension) (fits : shape.prod < Machine.wordRange) :
    (∀ index < shape.prod, ∃ levels, digits index shape = .ok levels ∧
      levels.length = shape.length ∧ Within levels shape ∧ flatIndex levels shape = .ok index) ∧
    (∀ levels, Within levels shape → ∃ index < shape.prod, flatIndex levels shape = .ok index ∧
      (∀ value ∈ intermediates 0 levels shape, value < Machine.wordRange) ∧
      digits index shape = .ok levels) ∧
    (∀ first second, Within first shape → Within second shape → first < second →
      ∃ below above, flatIndex first shape = .ok below ∧ flatIndex second shape = .ok above ∧
        below < above) ∧
    ∀ first second firstShape secondShape, firstShape ++ secondShape = shape →
      Within first firstShape → Within second secondShape →
      ∃ leading block trailing, flatIndex first firstShape = .ok leading ∧
        Machine.product secondShape = .ok block ∧ flatIndex second secondShape = .ok trailing ∧
        flatIndex (first ++ second) shape = .ok (leading * block + trailing) := by
  have computed : ∀ levels, Within levels shape →
      flatIndex levels shape = .ok (number levels shape) := fun levels within =>
    flatIndex_eq_ok within fits.le
  refine ⟨?_, ?_, ?_, ?_⟩
  · intro index inside
    have within : Within (levelsOf index shape) shape := within_levelsOf positive
    refine ⟨levelsOf index shape, digits_eq_ok positive, length_levelsOf, within, ?_⟩
    rw [computed _ within, number_levelsOf inside]
  · intro levels within
    refine ⟨number levels shape, number_lt within, computed levels within,
      intermediates_lt_of_flatIndexFrom (computed levels within), ?_⟩
    rw [digits_eq_ok positive, levelsOf_number within]
  · intro first second firstWithin secondWithin ordered
    exact ⟨_, _, computed first firstWithin, computed second secondWithin,
      number_lt_number firstWithin secondWithin ordered⟩
  · rintro first second firstShape secondShape rfl firstWithin secondWithin
    rw [List.prod_append] at fits
    have firstPositive : 0 < firstShape.prod := Nat.zero_lt_of_lt (number_lt firstWithin)
    have secondPositive : 0 < secondShape.prod := Nat.zero_lt_of_lt (number_lt secondWithin)
    have firstFits := (Nat.le_mul_of_pos_right _ secondPositive).trans fits.le
    have secondFits := (Nat.le_mul_of_pos_left _ firstPositive).trans_lt fits
    refine ⟨_, _, _, flatIndex_eq_ok firstWithin firstFits,
      Machine.product_eq_ok secondWithin.pos secondFits,
      flatIndex_eq_ok secondWithin secondFits.le, ?_⟩
    rw [computed _ (firstWithin.append secondWithin), number_append firstWithin.length_eq]

/-- Three qudits, one of them with a single level, with one basis state less than there are
words. -/
theorem levels_and_numbers_agree_near_limit :
    let shape : List Nat := [4294967295, 1, 4294967297]
    let last : List Nat := [4294967294, 0, 4294967296]
    (∀ dimension ∈ shape, 0 < dimension) ∧ shape.prod + 1 = Machine.wordRange ∧
    Within last shape ∧
    (∃ levels, digits 18446744073709551614 shape = .ok levels ∧ Within levels shape ∧
      flatIndex levels shape = .ok 18446744073709551614) ∧
    (∃ index < shape.prod, flatIndex last shape = .ok index ∧
      (∀ value ∈ intermediates 0 last shape, value < Machine.wordRange) ∧
      digits index shape = .ok last) ∧
    ∃ below above, flatIndex [4294967293, 0, 4294967296] shape = .ok below ∧
      flatIndex last shape = .ok above ∧ below < above := by
  intro shape last
  have positive : ∀ dimension ∈ shape, 0 < dimension := by decide
  have count : shape.prod + 1 = Machine.wordRange := by decide
  have fits : shape.prod < Machine.wordRange := Nat.lt_of_succ_le count.le
  have within : Within last shape := by simp [last, shape]
  have before : Within [4294967293, 0, 4294967296] shape := by simp [shape]
  obtain ⟨found, numbered, ordered, -⟩ := levels_and_numbers_agree positive fits
  obtain ⟨levels, levelsOk, -, levelsWithin, same⟩ := found 18446744073709551614 (by decide)
  exact ⟨positive, count, within, ⟨levels, levelsOk, levelsWithin, same⟩, numbered last within,
    ordered _ last before within (by decide)⟩

end QuditCircuits.Register
