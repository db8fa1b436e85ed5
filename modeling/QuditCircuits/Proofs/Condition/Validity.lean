import Mathlib.Data.Prod.Lex
import Mathlib.Order.Bounds.Basic
import QuditCircuits.Proofs.Condition.Enumeration

/-!
# Validity of conditions

The check of a condition goes through its alternatives, their qudits and the levels accepted
there, and stops at the first level that is none of its qudit. Sets and alternatives are
ascending, so that level is the least of all those that exceed their qudits, in the
lexicographic order of the places where they are accepted (`Condition.excess`).

A valid condition enumerates assignments within the shape. For the converse, each level that is
accepted somewhere has to occur in an enumerated assignment. A qudit that accepts nothing keeps
its whole conjunction from enumerating anything, and still the levels of the other qudits are
checked; without such qudits the converse holds (`Condition.validate_of_expand`).
-/

namespace QuditCircuits

/-- A sequence of checks fails at the first one that does. -/
theorem exists_of_forM_eq_error {ε α : Type} {check : α → Except ε Unit} {items : List α}
    {reason : ε} (failed : items.forM check = .error reason) :
    ∃ (index : Nat) (item : α), items[index]? = some item ∧ check item = .error reason ∧
      ∀ earlier < index, ∀ other, items[earlier]? = some other → check other = .ok () := by
  induction items with
  | nil => cases failed
  | cons item items ih =>
      change (check item >>= fun _ => items.forM check) = _ at failed
      rcases bind_eq_error_iff.mp failed with failed | ⟨⟨⟩, passed, failed⟩
      · exact ⟨0, item, rfl, failed, fun earlier less => absurd less (Nat.not_lt_zero _)⟩
      · obtain ⟨index, failing, found, failed, before⟩ := ih failed
        refine ⟨index + 1, failing, found, failed, ?_⟩
        rintro (_ | earlier) less other inside
        · cases inside
          exact passed
        · exact before earlier (Nat.lt_of_succ_lt_succ less) other inside

/-- What is found first in an ascending list is the least to be found. -/
theorem Ascending.le_of_find? {set : Ascending Nat} {wanted : Nat → Bool} {least other : Nat}
    (found : set.toList.find? wanted = some least) (inside : other ∈ set.toList)
    (holds : wanted other = true) : least ≤ other := by
  obtain ⟨-, before, after, split, fine⟩ := List.find?_eq_some_iff_append.mp found
  have ascending := set.ascending
  rw [split] at inside ascending
  rcases List.mem_append.mp inside with early | late
  · exact absurd holds (by simpa using fine other early)
  · rcases List.mem_cons.mp late with rfl | late
    · exact Nat.le_refl _
    · have rest := (List.pairwise_append.mp ascending).2.1
      exact Nat.le_of_lt ((List.pairwise_cons.mp rest).1 other late)

namespace Conjunction

/-! ## Levels beyond their qudits -/

/-- The accepted levels that their qudits do not have, each with its qudit in front. -/
def excess (conjunction : Conjunction) (shape : List Nat) : Set (Nat ×ₗ Nat) :=
  {place | ∃ set dimension, conjunction.sets[(ofLex place).1]? = some set ∧
    shape[(ofLex place).1]? = some dimension ∧
    (ofLex place).2 ∈ set.toList ∧ dimension ≤ (ofLex place).2}

variable {set : Ascending Nat} {sets : List (Ascending Nat)} {dimension : Nat} {shape : List Nat}

/-- At the first qudit those levels of the first set are too large that are not below the first
dimension. -/
theorem mem_excess_zero {level : Nat} :
    toLex (0, level) ∈ excess ⟨set :: sets⟩ (dimension :: shape) ↔
      level ∈ set.toList ∧ dimension ≤ level := by
  simp [excess]

/-- At the later qudits the rest of the conjunction is compared with the rest of the dimensions. -/
theorem mem_excess_succ {qudit level : Nat} :
    toLex (qudit + 1, level) ∈ excess ⟨set :: sets⟩ (dimension :: shape) ↔
      toLex (qudit, level) ∈ excess ⟨sets⟩ shape := by
  simp [excess]

/-- A conjunction fits a shape if there is a set for each qudit and none of them exceeds it. -/
theorem fits_iff {conjunction : Conjunction} {shape : List Nat} :
    conjunction.Fits shape ↔ shape.length = conjunction.width ∧
      ∀ (qudit : Nat) (set : Ascending Nat) (dimension : Nat),
        conjunction.sets[qudit]? = some set → shape[qudit]? = some dimension →
          ∀ level ∈ set.toList, level < dimension := by
  rw [Fits, List.forall₂_iff_get]
  constructor
  · rintro ⟨length, below⟩
    refine ⟨length.symm, fun qudit set dimension found foundDimension => ?_⟩
    obtain ⟨inside, rfl⟩ := List.getElem?_eq_some_iff.mp found
    obtain ⟨insideShape, rfl⟩ := List.getElem?_eq_some_iff.mp foundDimension
    exact below qudit inside insideShape
  · rintro ⟨length, below⟩
    exact ⟨length.symm, fun qudit inside insideShape =>
      below qudit _ _ (List.getElem?_eq_getElem inside) (List.getElem?_eq_getElem insideShape)⟩

/-- Appended conjunctions fit a register if each fits its part. -/
theorem fits_append_iff {left right : Conjunction} {leftShape rightShape : List Nat}
    (length : left.width = leftShape.length) :
    (left.append right).Fits (leftShape ++ rightShape) ↔
      left.Fits leftShape ∧ right.Fits rightShape := by
  refine ⟨fun fits => ?_, fun ⟨leftFits, rightFits⟩ => leftFits.append rightFits⟩
  have front := List.forall₂_take_append _ _ _ fits
  have back := List.forall₂_drop_append _ _ _ fits
  rw [append, List.take_left' length] at front
  rw [append, List.drop_left' length] at back
  exact ⟨front, back⟩

/-- A conjunction that fits has no level that is too large. -/
theorem Fits.excess_eq_empty {conjunction : Conjunction} {shape : List Nat}
    (fits : conjunction.Fits shape) : conjunction.excess shape = ∅ := by
  refine Set.eq_empty_iff_forall_notMem.mpr ?_
  rintro place ⟨set, dimension, found, foundDimension, member, large⟩
  exact absurd ((fits_iff.mp fits).2 _ _ _ found foundDimension _ member) (Nat.not_lt.mpr large)

/-- A failing check names the least level that exceeds its qudit. -/
theorem exists_of_checkFrom_eq_error {start : Nat} {sets : List (Ascending Nat)}
    {shape : List Nat} {reason : ConditionError}
    (refused : checkFrom start sets shape = .error reason) :
    ∃ qudit level dimension, IsLeast (excess ⟨sets⟩ shape) (toLex (qudit, level)) ∧
      shape[qudit]? = some dimension ∧ reason = .outOfRange (start + qudit) level dimension := by
  induction sets generalizing start shape with
  | nil => cases refused
  | cons set sets ih =>
      cases shape with
      | nil => cases refused
      | cons dimension shape =>
          rw [checkFrom] at refused
          split at refused
          case h_1 level found =>
            cases refused
            have large : dimension ≤ level := by simpa using List.find?_some found
            refine ⟨0, level, dimension, ⟨?_, ?_⟩, rfl, rfl⟩
            · exact mem_excess_zero.mpr ⟨List.mem_of_find?_eq_some found, large⟩
            · refine Lex.forall.mpr ?_
              rintro ⟨_ | qudit, other⟩ member
              · obtain ⟨inside, exceeds⟩ := mem_excess_zero.mp member
                have least : level ≤ other := set.le_of_find? found inside (by simpa using exceeds)
                exact Prod.Lex.toLex_le_toLex.mpr (.inr ⟨rfl, least⟩)
              · exact Prod.Lex.toLex_le_toLex.mpr (.inl (Nat.succ_pos _))
          case h_2 none =>
            obtain ⟨qudit, level, bound, least, found, rfl⟩ := ih refused
            refine ⟨qudit + 1, level, bound, ⟨mem_excess_succ.mpr least.1, ?_⟩, found, ?_⟩
            · refine Lex.forall.mpr ?_
              rintro ⟨_ | other, large⟩ member
              · obtain ⟨inside, exceeds⟩ := mem_excess_zero.mp member
                exact absurd exceeds (by simpa using List.find?_eq_none.mp none large inside)
              · have bound := least.2 (mem_excess_succ.mp member)
                simpa [Prod.Lex.toLex_le_toLex] using bound
            · rw [Nat.add_right_comm, Nat.add_assoc]

/-! ## Assignments through a level -/

/-- Every qudit accepts some level. -/
def Occupied (conjunction : Conjunction) : Prop :=
  ∀ set ∈ conjunction.sets, set.toList ≠ []

instance (conjunction : Conjunction) : Decidable conjunction.Occupied :=
  inferInstanceAs (Decidable (∀ set ∈ conjunction.sets, set.toList ≠ []))

/-- Sets that are not empty accept some levels. -/
theorem exists_acceptsWithin {sets : List (Ascending Nat)}
    (occupied : ∀ set ∈ sets, set.toList ≠ []) :
    ∃ assignment, acceptsWithin sets assignment = true := by
  induction sets with
  | nil => exact ⟨[], rfl⟩
  | cons set sets ih =>
      obtain ⟨head, rest⟩ := List.forall_mem_cons.mp occupied
      obtain ⟨level, member⟩ := List.exists_mem_of_ne_nil _ head
      obtain ⟨levels, accepted⟩ := ih rest
      exact ⟨level :: levels, by simp [acceptsWithin, member, accepted]⟩

/-- Sets that are not empty accept some levels with any member of any set among them. -/
theorem exists_acceptsWithin_through {sets : List (Ascending Nat)}
    (occupied : ∀ set ∈ sets, set.toList ≠ []) {qudit level : Nat} {set : Ascending Nat}
    (found : sets[qudit]? = some set) (member : level ∈ set.toList) :
    ∃ assignment, acceptsWithin sets assignment = true ∧ assignment[qudit]? = some level := by
  induction sets generalizing qudit with
  | nil => cases found
  | cons first sets ih =>
      obtain ⟨head, rest⟩ := List.forall_mem_cons.mp occupied
      cases qudit with
      | zero =>
          cases found
          obtain ⟨levels, accepted⟩ := exists_acceptsWithin rest
          exact ⟨level :: levels, by simp [acceptsWithin, member, accepted], rfl⟩
      | succ qudit =>
          obtain ⟨other, inside⟩ := List.exists_mem_of_ne_nil _ head
          obtain ⟨levels, accepted, through⟩ := ih rest found
          exact ⟨other :: levels, by simp [acceptsWithin, inside, accepted], through⟩

/-- Where every qudit accepts some level, each accepted level occurs in an assignment. -/
theorem Occupied.exists_accepts {conjunction : Conjunction} (occupied : conjunction.Occupied)
    {qudit level : Nat} {set : Ascending Nat} (found : conjunction.sets[qudit]? = some set)
    (member : level ∈ set.toList) :
    ∃ assignment, conjunction.accepts assignment = true ∧ assignment[qudit]? = some level :=
  exists_acceptsWithin_through occupied found member

/-- A conjunction fits a shape if what it accepts does and every qudit accepts something. -/
theorem Occupied.fits {conjunction : Conjunction} (occupied : conjunction.Occupied)
    {shape : List Nat} (within : ∀ assignment, conjunction.accepts assignment = true →
      List.Forall₂ (· < ·) assignment shape) : conjunction.Fits shape := by
  refine fits_iff.mpr ⟨?_, fun qudit set dimension found foundDimension level member => ?_⟩
  · obtain ⟨assignment, accepted⟩ := exists_acceptsWithin occupied
    exact (within assignment accepted).length_eq.symm.trans (length_of_accepts accepted)
  · obtain ⟨assignment, accepted, through⟩ := occupied.exists_accepts found member
    obtain ⟨inside, rfl⟩ := List.getElem?_eq_some_iff.mp through
    obtain ⟨insideShape, rfl⟩ := List.getElem?_eq_some_iff.mp foundDimension
    exact (within assignment accepted).get inside insideShape

end Conjunction

namespace Condition

variable {condition left right : Condition} {shape : List Nat}

/-- The accepted levels that their qudits do not have, each with the number of its alternative
and its qudit in front. -/
def excess (condition : Condition) (shape : List Nat) : Set (Nat ×ₗ Nat ×ₗ Nat) :=
  {place | ∃ term, condition.conjunctions[(ofLex place).1]? = some term ∧
    (ofLex place).2 ∈ term.excess shape}

/-- The check of a form goes through its alternatives. -/
theorem validateInner_eq_forM :
    condition.validateInner shape = condition.conjunctions.forM (·.validate shape) := by
  cases condition with
  | product conjunction =>
      change conjunction.validate shape = (conjunction.validate shape >>= fun _ => .ok ())
      cases conjunction.validate shape <;> rfl
  | sum disjunction => rfl

/-- The first alternative refuses a shape of the wrong length in the same words. -/
theorem validate_eq_validateInner : condition.validate shape = condition.validateInner shape := by
  rw [validate]
  split
  case isTrue => rfl
  case isFalse different =>
    obtain ⟨first, rest, terms⟩ := List.exists_cons_of_ne_nil condition.conjunctions_ne_nil
    have width : first.width = condition.width :=
      width_of_mem_conjunctions (terms ▸ List.mem_cons_self)
    have refused : first.validate shape =
        .error (.shapeLength condition.width shape.length) := by
      rw [Conjunction.validate, width]
      exact if_neg different
    rw [validateInner_eq_forM, terms]
    change _ = (first.validate shape >>= fun _ => rest.forM (·.validate shape))
    rw [refused]
    rfl

/-- A register with another number of qudits is refused with both numbers. -/
theorem validate_eq_error_of_length (different : shape.length ≠ condition.width) :
    condition.validate shape = .error (.shapeLength condition.width shape.length) :=
  if_neg different

/-- What is refused for a shape of the right length is refused for the least excess. -/
theorem exists_of_validate_eq_error (length : shape.length = condition.width)
    {reason : ConditionError} (refused : condition.validate shape = .error reason) :
    ∃ index qudit level dimension,
      IsLeast (condition.excess shape) (toLex (index, toLex (qudit, level))) ∧
        shape[qudit]? = some dimension ∧ reason = .outOfRange qudit level dimension := by
  rw [validate_eq_validateInner, validateInner_eq_forM] at refused
  obtain ⟨index, term, found, refused, before⟩ := exists_of_forM_eq_error refused
  have width := width_of_mem_conjunctions (List.mem_of_getElem? found)
  rw [Conjunction.validate, if_pos (length.trans width.symm)] at refused
  obtain ⟨qudit, level, dimension, least, foundDimension, rfl⟩ :=
    Conjunction.exists_of_checkFrom_eq_error refused
  refine ⟨index, qudit, level, dimension, ⟨⟨term, found, least.1⟩, ?_⟩, foundDimension,
    congrArg (ConditionError.outOfRange · level dimension) (Nat.zero_add _)⟩
  rintro place ⟨other, otherFound, member⟩
  refine Prod.Lex.toLex_le_toLex'.mpr ⟨?_, ?_⟩
  · by_contra less
    have fits := Conjunction.validate_eq_ok_iff.mp
      (before _ (Nat.lt_of_not_le less) other otherFound)
    rw [fits.excess_eq_empty] at member
    exact member
  · intro same
    change index = (ofLex place).1 at same
    rw [← same, found] at otherFound
    cases otherFound
    exact least.2 member

/-- A shape of the right length is refused for the least excess, and only if there is one. -/
theorem validate_eq_error_iff (length : shape.length = condition.width)
    {reason : ConditionError} :
    condition.validate shape = .error reason ↔ ∃ index qudit level dimension,
      IsLeast (condition.excess shape) (toLex (index, toLex (qudit, level))) ∧
        shape[qudit]? = some dimension ∧ reason = .outOfRange qudit level dimension := by
  refine ⟨exists_of_validate_eq_error length, ?_⟩
  rintro ⟨index, qudit, level, dimension, least, found, rfl⟩
  cases checked : condition.validate shape with
  | ok =>
      obtain ⟨term, termFound, member⟩ := least.1
      have fits := validate_eq_ok_iff.mp checked term (List.mem_of_getElem? termFound)
      rw [fits.excess_eq_empty] at member
      exact absurd member (Set.notMem_empty _)
  | error reason =>
      obtain ⟨_, _, _, _, otherLeast, otherFound, rfl⟩ :=
        exists_of_validate_eq_error length checked
      cases otherLeast.unique least
      cases otherFound.symm.trans found
      rfl

/-- A condition is valid for a shape of the right length if no accepted level exceeds its
qudit. -/
theorem validate_eq_ok_iff_levels :
    condition.validate shape = .ok () ↔ shape.length = condition.width ∧
      ∀ term ∈ condition.conjunctions, ∀ (qudit : Nat) (set : Ascending Nat) (dimension : Nat),
        term.sets[qudit]? = some set → shape[qudit]? = some dimension →
          ∀ level ∈ set.toList, level < dimension := by
  constructor
  · intro valid
    refine ⟨length_eq_of_validate valid, fun term inside => ?_⟩
    exact (Conjunction.fits_iff.mp (validate_eq_ok_iff.mp valid term inside)).2
  · rintro ⟨length, below⟩
    refine validate_eq_ok_iff.mpr fun term inside => Conjunction.fits_iff.mpr ⟨?_, ?_⟩
    · exact length.trans (width_of_mem_conjunctions inside).symm
    · exact below term inside

/-- Where every qudit accepts some level, a condition is valid if what it enumerates is. -/
theorem validate_of_expand (occupied : ∀ term ∈ condition.conjunctions, term.Occupied)
    (within : ∀ assignment ∈ condition.expand, List.Forall₂ (· < ·) assignment shape) :
    condition.validate shape = .ok () := by
  refine validate_eq_ok_iff.mpr fun term inside => ?_
  refine (occupied term inside).fits fun assignment accepted => ?_
  exact within assignment (mem_expand.mpr (accepts_iff_exists.mpr ⟨term, inside, accepted⟩))

/-! ## Combined and united conditions -/

/-- A combined condition is valid for appended shapes if both parts are valid for theirs. -/
theorem validate_combine_iff {left right : Condition} {leftShape rightShape : List Nat}
    (length : left.width = leftShape.length) :
    (left.combine right).validate (leftShape ++ rightShape) = .ok () ↔
      left.validate leftShape = .ok () ∧ right.validate rightShape = .ok () := by
  refine ⟨fun valid => ?_, fun ⟨leftValid, rightValid⟩ => validate_combine leftValid rightValid⟩
  have fits : ∀ first ∈ left.conjunctions, ∀ second ∈ right.conjunctions,
      first.Fits leftShape ∧ second.Fits rightShape := by
    intro first firstInside second secondInside
    refine (Conjunction.fits_append_iff ?_).mp (validate_eq_ok_iff.mp valid _
      (mem_conjunctions_combine.mpr ⟨first, firstInside, second, secondInside, rfl⟩))
    rw [width_of_mem_conjunctions firstInside, length]
  -- Both parts have an alternative, with which those of the other are paired.
  obtain ⟨someFirst, firstInside⟩ := List.exists_mem_of_ne_nil _ left.conjunctions_ne_nil
  obtain ⟨someSecond, secondInside⟩ := List.exists_mem_of_ne_nil _ right.conjunctions_ne_nil
  constructor
  · exact validate_eq_ok_iff.mpr fun first inside => (fits first inside _ secondInside).1
  · exact validate_eq_ok_iff.mpr fun second inside => (fits _ firstInside second inside).2

/-- A union is valid for the shapes that both its sides are valid for. -/
theorem validate_union_iff {united : Condition} (joined : left.union right = .ok united) :
    united.validate shape = .ok () ↔
      left.validate shape = .ok () ∧ right.validate shape = .ok () := by
  obtain ⟨_, _, members⟩ := union_eq_ok_iff.mp joined
  simp only [validate_eq_ok_iff, members, or_imp, forall_and]

end Condition

/-- **Validation is exact and compositional.** A condition is valid for a shape if the shape has
a dimension for each qudit and each level of each set of each alternative is below the dimension
of its qudit. A shape of another length is refused as such. Any other refusal names the first
level that is not, going through the alternatives, their qudits and the levels there. It makes
no difference whether the condition or its form is asked. A valid condition enumerates
assignments within the shape only; if every qudit of every alternative accepts some level, a
condition that enumerates such assignments only is valid. Combined conditions are valid for two
shapes side by side if each is valid for its own, and a union is valid for the shapes that both
sides are valid for. -/
theorem validation_is_exact :
    (∀ (condition : Condition) (shape : List Nat),
      (condition.validate shape = .ok () ↔ shape.length = condition.width ∧
        ∀ term ∈ condition.conjunctions,
          ∀ (qudit : Nat) (set : Ascending Nat) (dimension : Nat),
            term.sets[qudit]? = some set → shape[qudit]? = some dimension →
              ∀ level ∈ set.toList, level < dimension) ∧
      (shape.length ≠ condition.width →
        condition.validate shape = .error (.shapeLength condition.width shape.length)) ∧
      (shape.length = condition.width → ∀ reason,
        (condition.validate shape = .error reason ↔ ∃ index qudit level dimension,
          IsLeast (condition.excess shape) (toLex (index, toLex (qudit, level))) ∧
            shape[qudit]? = some dimension ∧ reason = .outOfRange qudit level dimension)) ∧
      condition.validate shape = condition.validateInner shape ∧
      (condition.validate shape = .ok () →
        ∀ assignment ∈ condition.expand, List.Forall₂ (· < ·) assignment shape) ∧
      ((∀ term ∈ condition.conjunctions, term.Occupied) →
        (∀ assignment ∈ condition.expand, List.Forall₂ (· < ·) assignment shape) →
          condition.validate shape = .ok ())) ∧
    (∀ (left right : Condition) (front back : List Nat), front.length = left.width →
      ((left.combine right).validate (front ++ back) = .ok () ↔
        left.validate front = .ok () ∧ right.validate back = .ok ())) ∧
    ∀ left right : Condition, left.width = right.width →
      ∃ united, left.union right = .ok united ∧ ∀ shape,
        (united.validate shape = .ok () ↔
          left.validate shape = .ok () ∧ right.validate shape = .ok ()) := by
  refine ⟨fun condition shape => ⟨?_, ?_, ?_, ?_, ?_, ?_⟩, ?_, ?_⟩
  · exact Condition.validate_eq_ok_iff_levels
  · exact Condition.validate_eq_error_of_length
  · intro length reason
    exact Condition.validate_eq_error_iff length
  · exact Condition.validate_eq_validateInner
  · intro valid assignment listed
    exact Condition.within_of_accepts valid (Condition.mem_expand.mp listed)
  · exact Condition.validate_of_expand
  · intro left right front back length
    exact Condition.validate_combine_iff length.symm
  · intro left right same
    obtain ⟨united, joined, _⟩ := Condition.exists_union same
    exact ⟨united, joined, fun shape => Condition.validate_union_iff joined⟩

/-- Two qudits at `0, 1` or at `2, 0`, and two qudits of which the first is at level zero or one
and the second at level one. The level two of the second alternative exceeds two qubits. -/
theorem validation_is_exact_either :
    let either : Condition := .sum {
      width := 2
      terms := .ofList [.ofValues [2, 0], .ofValues [0, 1]]
      nonempty := by decide
      uniform := by decide }
    let pair : Condition := .product (.ofSets [[1, 0], [1]])
    either.validate [2, 2] = .error (.outOfRange 0 2 2) ∧
      (∃ index, IsLeast (either.excess [2, 2]) (toLex (index, toLex (0, 2)))) ∧
      either.validate [2] = .error (.shapeLength 2 1) ∧
      either.validate [3, 2] = .ok () ∧ List.Forall₂ (· < ·) [2, 0] [3, 2] ∧
      (either.combine pair).validate ([3, 2] ++ [2, 2]) = .ok () ∧
      ∃ united, either.union pair = .ok united ∧ united.validate [3, 2] = .ok () := by
  intro either pair
  obtain ⟨exact, combined, joined⟩ := validation_is_exact
  obtain ⟨-, -, refused, -⟩ := exact either [2, 2]
  obtain ⟨index, _, _, _, least, _, same⟩ := (refused rfl _).mp rfl
  cases same
  obtain ⟨-, -, -, -, within, valid⟩ := exact either [3, 2]
  have valid : either.validate [3, 2] = .ok () := valid (by decide) (by decide)
  obtain ⟨united, equal, both⟩ := joined either pair rfl
  exact ⟨rfl, ⟨index, least⟩, (exact either [2]).2.1 (by decide), valid,
    within valid [2, 0] (by decide), (combined either pair [3, 2] [2, 2] rfl).mpr ⟨valid, rfl⟩,
    united, equal, (both [3, 2]).mpr ⟨valid, rfl⟩⟩

/-- Where a qudit accepts nothing, nothing is enumerated, and the other levels are checked. -/
example :
    let gap : Condition := .product (.ofSets [[5], []])
    gap.expand = [] ∧ gap.validate [2, 2] = .error (.outOfRange 0 5 2) := by
  decide

end QuditCircuits
