import Mathlib.Topology.Instances.AddCircle.Defs
import QuditCircuits.PhaseArc
import QuditCircuits.Proofs.RealScalar

/-!
# Arcs free of angles

The widest gap between sorted angles, with the gap through the ends of the list as the start of
the maximum, is the length of the longest arc of the circle that contains no angle in its
interior (`isGreatest_widestGap`). That set of lengths only depends on the points that the
angles mark on the circle, so the order and repetition of the angles do not matter, nor does
the cut of the circle, and further angles never widen the gap.
-/

namespace QuditCircuits.PhaseArc

/-- The points that angles mark on the circle of circumference `turn`. -/
def points (turn : ℝ) (angles : List ℝ) : List (AddCircle turn) :=
  angles.map (↑)

/-- An arc of the circle of circumference `turn` that contains no angle in its interior. -/
structure IsFree (turn : ℝ) (angles : List ℝ) (start length : ℝ) : Prop where
  nonneg : 0 ≤ length
  le_turn : length ≤ turn
  clear : ∀ point ∈ points turn angles,
    point ∉ ((↑) : ℝ → AddCircle turn) '' Set.Ioo start (start + length)

/-- Angles that differ by at most a turn. -/
def WithinTurn (turn : ℝ) (angles : List ℝ) : Prop :=
  ∀ lower ∈ angles, ∀ upper ∈ angles, upper ≤ lower + turn

variable {turn : ℝ} {angles : List ℝ}

/-- A point of the circle stands for an angle and all that differ from it by whole turns. -/
theorem coe_mem_image_iff {angle : ℝ} {region : Set ℝ} :
    (angle : AddCircle turn) ∈ ((↑) : ℝ → AddCircle turn) '' region ↔
      ∃ turns : ℤ, angle + turns • turn ∈ region := by
  constructor
  · rintro ⟨other, inside, same⟩
    have difference : ((other - angle : ℝ) : AddCircle turn) = 0 := by
      rw [AddCircle.coe_sub, same, sub_self]
    obtain ⟨turns, shift⟩ := AddCircle.coe_eq_zero_iff turn |>.mp difference
    exact ⟨turns, by rwa [shift, add_sub_cancel]⟩
  · rintro ⟨turns, inside⟩
    have whole : ((turns • turn : ℝ) : AddCircle turn) = 0 :=
      AddCircle.coe_eq_zero_iff turn |>.mpr ⟨turns, rfl⟩
    exact ⟨_, inside, by rw [AddCircle.coe_add, whole, add_zero]⟩

/-- An arc free of angles is free of all that mark no other points. -/
theorem IsFree.of_points {others : List ℝ} {start length : ℝ}
    (free : IsFree turn angles start length) (marked : points turn others ⊆ points turn angles) :
    IsFree turn others start length :=
  ⟨free.nonneg, free.le_turn, fun point member => free.clear point (marked member)⟩

/-- The arc between two angles is free if every angle is at most one turn before its end and
not after its start, or at most one turn after its start and not before its end. -/
theorem isFree_between {left right : ℝ} (ordered : left ≤ right) (short : right ≤ left + turn)
    (beside : ∀ angle ∈ angles,
      angle ≤ left ∧ right ≤ angle + turn ∨ right ≤ angle ∧ angle ≤ left + turn) :
    IsFree turn angles left (right - left) where
  nonneg := sub_nonneg.mpr ordered
  le_turn := sub_le_iff_le_add'.mpr short
  clear point marked := by
    obtain ⟨angle, member, rfl⟩ := List.mem_map.mp marked
    have positive : 0 ≤ turn := by linarith
    rw [coe_mem_image_iff, add_sub_cancel]
    rintro ⟨turns, above, below⟩
    rw [zsmul_eq_mul] at above below
    rcases beside angle member with ⟨before, next⟩ | ⟨behind, previous⟩
    · rcases le_or_gt turns 0 with down | up
      · have : (turns : ℝ) * turn ≤ 0 :=
          mul_nonpos_of_nonpos_of_nonneg (Int.cast_nonpos.mpr down) positive
        linarith
      · have : 1 * turn ≤ turns * turn :=
          mul_le_mul_of_nonneg_right (mod_cast up) positive
        linarith
    · rcases lt_or_ge turns 0 with down | up
      · have : turns * turn ≤ -1 * turn :=
          mul_le_mul_of_nonneg_right (mod_cast Int.le_sub_one_of_lt down) positive
        linarith
      · have : 0 ≤ turns * turn := mul_nonneg (Int.cast_nonneg up) positive
        linarith

/-! ## Gaps of sorted angles -/

/-- A gap is the difference of two neighbours. -/
theorem mem_gaps_iff {gap : ℝ} : gap ∈ gaps angles ↔
    ∃ before left right after, angles = before ++ left :: right :: after ∧ gap = right - left := by
  fun_induction gaps angles with
  | case1 first second rest ih =>
      rw [List.mem_cons, ih]
      constructor
      · rintro (rfl | ⟨before, left, right, after, split, rfl⟩)
        · exact ⟨[], first, second, rest, rfl, rfl⟩
        · exact ⟨first :: before, left, right, after, by rw [split, List.cons_append], rfl⟩
      · rintro ⟨before, left, right, after, split, rfl⟩
        cases before with
        | nil =>
            cases split
            exact .inl rfl
        | cons head before =>
            obtain ⟨-, split⟩ := List.cons.inj split
            exact .inr ⟨before, left, right, after, split, rfl⟩
  | case2 angles short =>
      refine iff_of_false List.not_mem_nil ?_
      rintro ⟨before, left, right, after, rfl, rfl⟩
      cases before with
      | nil => exact short _ _ _ rfl
      | cons head before => cases before <;> exact short _ _ _ rfl

/-- There is one gap less than there are points. -/
theorem length_gaps (first : ℝ) (rest : List ℝ) :
    (gaps (first :: rest)).length = rest.length := by
  induction rest generalizing first with
  | nil => rfl
  | cons second rest ih => rw [gaps, List.length_cons, List.length_cons, ih]

/-- The gaps add up to the distance of the last point from the first. -/
theorem sum_gaps (first : ℝ) (rest : List ℝ) :
    (gaps (first :: rest)).sum = (first :: rest).getLast (List.cons_ne_nil first rest) - first := by
  induction rest generalizing first with
  | nil => simp [gaps]
  | cons second rest ih =>
      rw [gaps, List.sum_cons, ih, List.getLast_cons (List.cons_ne_nil second rest)]
      ring

/-- A number from the first angle on is below no angle or lies between two neighbours. -/
theorem exists_neighbours {first bound : ℝ} {rest : List ℝ} (above : first ≤ bound)
    (below : ∃ angle ∈ rest, bound < angle) :
    ∃ before left right after, first :: rest = before ++ left :: right :: after ∧
      left ≤ bound ∧ bound < right := by
  induction rest generalizing first with
  | nil => simp at below
  | cons second rest ih =>
      rcases lt_or_ge bound second with next | behind
      · exact ⟨[], first, second, rest, rfl, above, next⟩
      · obtain ⟨angle, member, larger⟩ := below
        have later : angle ∈ rest := (List.mem_cons.mp member).resolve_left
          fun same => absurd behind (same ▸ larger).not_ge
        obtain ⟨before, left, right, after, split, neighbours⟩ := ih behind ⟨angle, later, larger⟩
        exact ⟨first :: before, left, right, after, by rw [split, List.cons_append], neighbours⟩

section Sorted

variable {first : ℝ} {rest : List ℝ}

/-- The gap through the ends and those between neighbours. -/
noncomputable def allGaps (turn first : ℝ) (rest : List ℝ) : List ℝ :=
  (turn + first - (first :: rest).getLast (List.cons_ne_nil first rest)) :: gaps (first :: rest)

/-- The widest gap is the largest of all gaps. -/
theorem isGreatest_widestSortedGap (turn first : ℝ) (rest : List ℝ) :
    IsGreatest {gap | gap ∈ allGaps turn first rest} (widestSortedGap turn (first :: rest)) := by
  have largest : (allGaps turn first rest).max? = some (widestSortedGap turn (first :: rest)) :=
    List.max?_cons'
  obtain ⟨attained, bound⟩ := List.max?_eq_some_iff.mp largest
  exact ⟨attained, bound⟩

/-- All gaps make up a turn. -/
theorem sum_allGaps : (allGaps turn first rest).sum = turn := by
  rw [allGaps, List.sum_cons, sum_gaps]
  ring

/-- Every gap of sorted angles within a turn is a free arc. -/
theorem exists_isFree_of_mem_allGaps (sorted : (first :: rest).Pairwise (· ≤ ·))
    (within : WithinTurn turn (first :: rest)) {gap : ℝ} (member : gap ∈ allGaps turn first rest) :
    ∃ start, IsFree turn (first :: rest) start gap := by
  have head : ∀ angle ∈ first :: rest, first ≤ angle :=
    List.forall_mem_cons.mpr ⟨le_rfl, (List.pairwise_cons.mp sorted).1⟩
  rcases List.mem_cons.mp member with rfl | between
  · have lastMember := List.getLast_mem (List.cons_ne_nil first rest)
    have wrap := within first List.mem_cons_self _ lastMember
    refine ⟨_, add_comm turn first ▸ isFree_between wrap ?_ fun angle present => .inl ⟨?_, ?_⟩⟩
    · exact add_le_add_left (head _ lastMember) turn
    · exact sorted.rel_getLast present
    · exact add_le_add_left (head angle present) turn
  · obtain ⟨before, left, right, after, split, rfl⟩ := mem_gaps_iff.mp between
    rw [split] at sorted within ⊢
    have leftMember : left ∈ before ++ left :: right :: after := by simp
    have rightMember : right ∈ before ++ left :: right :: after := by simp
    obtain ⟨-, behind, earlier⟩ := List.pairwise_append.mp sorted
    obtain ⟨leftFirst, behind⟩ := List.pairwise_cons.mp behind
    refine ⟨left, isFree_between (leftFirst right List.mem_cons_self)
      (within _ leftMember _ rightMember) fun angle present => ?_⟩
    rcases List.mem_append.mp present with outside | inside
    · exact .inl ⟨earlier angle outside left List.mem_cons_self, within _ present _ rightMember⟩
    · rcases List.mem_cons.mp inside with rfl | inside
      · exact .inl ⟨le_rfl, within _ present _ rightMember⟩
      · refine .inr ⟨?_, within _ leftMember _ present⟩
        rcases List.mem_cons.mp inside with rfl | inside
        · exact le_rfl
        · exact (List.pairwise_cons.mp behind).1 angle inside

/-- A free arc is no longer than some gap: seen from the turn that begins with the first angle,
it starts between two neighbours or behind the last angle. -/
theorem exists_gap_of_isFree (positive : 0 < turn) {start length : ℝ}
    (free : IsFree turn (first :: rest) start length) :
    ∃ gap ∈ allGaps turn first rest, length ≤ gap := by
  obtain ⟨turns, ⟨above, below⟩, -⟩ := existsUnique_sub_zsmul_mem_Ico positive start first
  have ends : ∀ angle ∈ first :: rest, ∀ shift : ℤ, start < angle + shift • turn →
      start + length ≤ angle + shift • turn := by
    intro angle member shift later
    by_contra inside
    exact free.clear angle (List.mem_map_of_mem member)
      (coe_mem_image_iff.mpr ⟨shift, later, not_le.mp inside⟩)
  by_cases between : ∃ angle ∈ rest, start - turns • turn < angle
  · obtain ⟨before, left, right, after, split, leftBelow, rightAbove⟩ :=
      exists_neighbours above between
    have rightMember : right ∈ first :: rest := by simp [split]
    refine ⟨right - left, List.mem_cons_of_mem _ (mem_gaps_iff.mpr ⟨_, _, _, _, split, rfl⟩), ?_⟩
    have reached := ends right rightMember turns (sub_lt_iff_lt_add.mp rightAbove)
    linarith
  · push Not at between
    have behind : ∀ angle ∈ first :: rest, angle ≤ start - turns • turn :=
      List.forall_mem_cons.mpr ⟨above, between⟩
    have lastBehind := behind _ (List.getLast_mem (List.cons_ne_nil first rest))
    refine ⟨_, List.mem_cons_self, ?_⟩
    have next : first + (turns + 1) • turn = first + turn + turns • turn := by
      rw [add_zsmul, one_zsmul]
      ring
    have reached := ends first List.mem_cons_self (turns + 1) (by rw [next]; linarith)
    rw [next] at reached
    linarith

end Sorted

/-! ## All angles -/

/-- Sorting yields the same angles in ascending order. -/
theorem exists_sorted (turn : ℝ) (nonempty : angles ≠ []) : ∃ first rest,
    widestGap turn angles = widestSortedGap turn (first :: rest) ∧
    (first :: rest).Perm angles ∧ (first :: rest).Pairwise (· ≤ ·) := by
  have perm := List.mergeSort_perm angles Scalar.totalLe
  have sorted : (angles.mergeSort Scalar.totalLe).Pairwise (· ≤ ·) := by
    refine (List.pairwise_mergeSort ?_ ?_ angles).imp of_decide_eq_true
    · intro first second third le next
      exact decide_eq_true ((of_decide_eq_true le).trans (of_decide_eq_true next))
    · intro first second
      simpa [Scalar.totalLe] using le_total first second
  have some : angles.mergeSort Scalar.totalLe ≠ [] := fun none =>
    nonempty (none ▸ perm).symm.eq_nil
  obtain ⟨first, rest, same⟩ := List.exists_cons_of_ne_nil some
  rw [same] at perm sorted
  exact ⟨first, rest, by rw [widestGap, same], perm, sorted⟩

/-- **The widest gap.** For angles within a turn it is the length of a longest free arc. -/
theorem isGreatest_widestGap (positive : 0 < turn) (nonempty : angles ≠ [])
    (within : WithinTurn turn angles) :
    IsGreatest {length | ∃ start, IsFree turn angles start length} (widestGap turn angles) := by
  obtain ⟨first, rest, same, perm, sorted⟩ := exists_sorted turn nonempty
  have withinSorted : WithinTurn turn (first :: rest) := fun lower lowerMember upper upperMember =>
    within lower (perm.mem_iff.mp lowerMember) upper (perm.mem_iff.mp upperMember)
  obtain ⟨attained, bound⟩ := isGreatest_widestSortedGap turn first rest
  rw [same]
  constructor
  · obtain ⟨start, free⟩ := exists_isFree_of_mem_allGaps sorted withinSorted attained
    exact ⟨start, free.of_points (List.map_subset _ perm.symm.subset)⟩
  · rintro length ⟨start, free⟩
    obtain ⟨gap, member, le⟩ := exists_gap_of_isFree positive
      (free.of_points (List.map_subset _ perm.subset))
    exact le.trans (bound member)

/-- Further points on the circle never widen the gap. -/
theorem widestGap_le_of_points {others : List ℝ} (positive : 0 < turn) (nonempty : angles ≠ [])
    (within : WithinTurn turn angles) (othersNonempty : others ≠ [])
    (othersWithin : WithinTurn turn others)
    (marked : points turn angles ⊆ points turn others) :
    widestGap turn others ≤ widestGap turn angles := by
  refine (isGreatest_widestGap positive othersNonempty othersWithin).mono
    (isGreatest_widestGap positive nonempty within) ?_
  rintro length ⟨start, free⟩
  exact ⟨start, free.of_points marked⟩

/-- The average gap is no wider than the widest. -/
theorem div_length_le_widestGap (nonempty : angles ≠ []) :
    turn / angles.length ≤ widestGap turn angles := by
  obtain ⟨first, rest, same, perm, -⟩ := exists_sorted turn nonempty
  have count : (allGaps turn first rest).length = angles.length := by
    rw [allGaps, List.length_cons, length_gaps, ← perm.length_eq, List.length_cons]
  have total := List.sum_le_card_nsmul (allGaps turn first rest) _
    fun gap member => (isGreatest_widestSortedGap turn first rest).2 member
  rw [sum_allGaps, count, nsmul_eq_mul, ← same] at total
  have positive : (0 : ℝ) < angles.length := Nat.cast_pos.mpr (List.length_pos_of_ne_nil nonempty)
  exact (div_le_iff₀' positive).mpr total

/-- **The widest gap is the longest arc free of angles.** For angles within a turn of any positive
circumference it is the length of the longest arc of the circle with no angle in its interior. It
depends neither on the order nor on the repetition of the angles, does not change when any of them
are moved up by a turn as long as all stay within a turn, is at least the average share of the
turn, and never grows with further angles within the turn. -/
theorem widest_gap_is_longest_free_arc (positive : 0 < turn) (nonempty : angles ≠ [])
    (within : WithinTurn turn angles) :
    IsGreatest {length | ∃ start, IsFree turn angles start length} (widestGap turn angles) ∧
    (∀ others, (∀ angle, angle ∈ others ↔ angle ∈ angles) →
      widestGap turn others = widestGap turn angles) ∧
    (∀ moved, List.Forall₂ (fun angle other => other = angle ∨ other = angle + turn) angles moved →
      WithinTurn turn moved → widestGap turn moved = widestGap turn angles) ∧
    turn / angles.length ≤ widestGap turn angles ∧
    ∀ further, angles ⊆ further → WithinTurn turn further →
      widestGap turn further ≤ widestGap turn angles := by
  have unchanged : ∀ others, others ≠ [] → WithinTurn turn others →
      points turn angles ⊆ points turn others → points turn others ⊆ points turn angles →
      widestGap turn others = widestGap turn angles :=
    fun others othersNonempty othersWithin marked unmarked => le_antisymm
      (widestGap_le_of_points positive nonempty within othersNonempty othersWithin marked)
      (widestGap_le_of_points positive othersNonempty othersWithin nonempty within unmarked)
  refine ⟨isGreatest_widestGap positive nonempty within, ?_, ?_,
    div_length_le_widestGap nonempty, ?_⟩
  · intro others same
    obtain ⟨angle, member⟩ := List.exists_mem_of_ne_nil angles nonempty
    apply unchanged others (List.ne_nil_of_mem ((same angle).mpr member))
    · exact fun lower lowerMember upper upperMember =>
        within lower ((same lower).mp lowerMember) upper ((same upper).mp upperMember)
    · exact List.map_subset _ fun angle member => (same angle).mpr member
    · exact List.map_subset _ fun other member => (same other).mp member
  · intro moved shifted movedWithin
    have same : points turn angles = points turn moved := by
      refine List.forall₂_eq_eq_eq ▸ List.forall₂_map_left_iff.mpr
        (List.forall₂_map_right_iff.mpr (shifted.imp fun angle other => ?_))
      rintro (rfl | rfl)
      · rfl
      · rw [AddCircle.coe_add, AddCircle.coe_period, add_zero]
    refine unchanged moved ?_ movedWithin (same ▸ List.Subset.refl _) (same ▸ List.Subset.refl _)
    rintro rfl
    exact nonempty (List.forall₂_nil_right_iff.mp shifted)
  · intro further included furtherWithin
    obtain ⟨angle, member⟩ := List.exists_mem_of_ne_nil angles nonempty
    exact widestGap_le_of_points positive nonempty within (List.ne_nil_of_mem (included member))
      furtherWithin (List.map_subset _ included)

/-- Three angles on a circle of circumference four, with the two smaller ones moved up, and with a
fourth angle in the gap through the ends. -/
theorem widest_gap_is_longest_free_arc_four :
    (0 : ℝ) < 4 ∧ ([1, 3, 0] : List ℝ) ≠ [] ∧ WithinTurn 4 [1, 3, 0] ∧
    IsGreatest {length | ∃ start, IsFree 4 [1, 3, 0] start length} (widestGap 4 [1, 3, 0]) ∧
    widestGap (4 : ℝ) [0, 1, 1, 3] = widestGap 4 [1, 3, 0] ∧
    widestGap (4 : ℝ) [5, 3, 4] = widestGap 4 [1, 3, 0] ∧
    4 / 3 ≤ widestGap (4 : ℝ) [1, 3, 0] ∧
    widestGap (4 : ℝ) [1, 3, 0, 2] ≤ widestGap 4 [1, 3, 0] := by
  have within : WithinTurn 4 [1, 3, 0] := by
    norm_num [WithinTurn]
  have moved : WithinTurn 4 [5, 3, 4] := by
    norm_num [WithinTurn]
  have further : WithinTurn 4 [1, 3, 0, 2] := by
    norm_num [WithinTurn]
  have positive : (0 : ℝ) < 4 := by norm_num
  have nonempty : ([1, 3, 0] : List ℝ) ≠ [] := List.cons_ne_nil _ _
  obtain ⟨greatest, ordered, cut, average, grown⟩ :=
    widest_gap_is_longest_free_arc positive nonempty within
  refine ⟨positive, nonempty, within, greatest, ordered _ ?_, cut _ ?_ moved, ?_,
    grown _ ?_ further⟩
  · intro angle
    simp
    tauto
  · norm_num
  · simpa using average
  · simp

end QuditCircuits.PhaseArc
