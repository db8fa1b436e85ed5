import QuditCircuits.Proofs.Condition.Canonical

/-!
# Laws of conditions

Combining collapses a sum of one term and does not sort; uniting sorts first. The two sides
of a law of these operations reach the same condition in different ways. Both operations end
in a simplified condition, and a simplified condition is determined by which terms are among
its alternatives (`Condition.eq_of_mem_conjunctions`), so a law of stored conditions is one
of membership. In particular the union is described by its alternatives alone
(`Condition.union_eq_ok_iff`). The laws are stated once for any way of storing conditions
(`ConditionOperations.Laws`).
-/

namespace QuditCircuits

theorem Conjunction.append_assoc {first second third : Conjunction} :
    (first.append second).append third = first.append (second.append third) :=
  congrArg Conjunction.mk (List.append_assoc _ _ _)

namespace Condition

variable {left right third : Condition}

/-- The alternatives stand in ascending order. -/
theorem pairwise_conjunctions (condition : Condition) :
    condition.conjunctions.Pairwise (· < ·) := by
  cases condition with
  | product conjunction => exact List.pairwise_singleton _ _
  | sum disjunction => exact disjunction.terms.ascending

theorem width_simplified {condition : Condition} :
    condition.simplified.width = condition.width := by
  obtain ⟨term, member⟩ := List.exists_mem_of_ne_nil _ condition.conjunctions_ne_nil
  have simplifiedMember : term ∈ condition.simplified.conjunctions := by
    rwa [conjunctions_simplified]
  rw [← width_of_mem_conjunctions member, width_of_mem_conjunctions simplifiedMember]

/-- A condition with one alternative is simplified to it. -/
theorem simplified_eq_product {condition : Condition} {term : Conjunction}
    (only : condition.conjunctions = [term]) : condition.simplified = .product term := by
  cases condition with
  | product conjunction => exact congrArg product (List.singleton_inj.mp only)
  | sum disjunction =>
      change disjunction.terms.toList = [term] at only
      simp only [simplified, only]

/-- Simplified conditions with the same alternatives are equal. -/
theorem simplified_congr (same : left.conjunctions = right.conjunctions) :
    left.simplified = right.simplified := by
  cases left with
  | product term => exact (simplified_eq_product same.symm).symm
  | sum first =>
      cases right with
      | product term => exact simplified_eq_product same
      | sum second =>
          change first.terms.toList = second.terms.toList at same
          obtain ⟨term, member⟩ := List.exists_mem_of_ne_nil _ first.nonempty
          have width : first.width = second.width :=
            (first.uniform term member).symm.trans (second.uniform term (same ▸ member))
          rw [Disjunction.ext width (Ascending.ext same)]

/-- **Extensionality.** Simplified conditions are equal if they have the same terms among
their alternatives. -/
theorem eq_of_mem_conjunctions (leftSimplified : left.simplified = left)
    (rightSimplified : right.simplified = right)
    (same : ∀ term, term ∈ left.conjunctions ↔ term ∈ right.conjunctions) : left = right := by
  have conjunctions : left.conjunctions = right.conjunctions :=
    left.pairwise_conjunctions.eq_of_mem_iff right.pairwise_conjunctions same
  rw [← leftSimplified, ← rightSimplified, simplified_congr conjunctions]

/-! ## Combination -/

/-- The alternatives of a combination are the alternatives of the left, each followed by one of
the right. -/
theorem mem_conjunctions_combine {term : Conjunction} :
    term ∈ (left.combine right).conjunctions ↔
      ∃ first ∈ left.conjunctions, ∃ second ∈ right.conjunctions, first.append second = term := by
  rw [conjunctions_combine]
  simp only [List.mem_flatMap, List.mem_map]

theorem width_combine : (left.combine right).width = left.width + right.width := by
  rw [combine_eq_simplified, width_simplified]
  exact congrArg₂ (· + ·) width_toDisjunction width_toDisjunction

/-- What was simplified before combines to the same condition. -/
theorem combine_simplified : left.simplified.combine right.simplified = left.combine right := by
  have same : (left.simplified.combine right.simplified).conjunctions =
      (left.combine right).conjunctions := by
    simp only [conjunctions_combine, conjunctions_simplified]
  exact simplified_combine.symm.trans ((simplified_congr same).trans simplified_combine)

/-- Combination is associative. -/
theorem combine_assoc :
    (left.combine right).combine third = left.combine (right.combine third) := by
  refine eq_of_mem_conjunctions simplified_combine simplified_combine fun term => ?_
  simp only [mem_conjunctions_combine]
  constructor
  · rintro ⟨_, ⟨first, firstInside, second, secondInside, rfl⟩, last, lastInside, rfl⟩
    exact ⟨first, firstInside, _, ⟨second, secondInside, last, lastInside, rfl⟩,
      Conjunction.append_assoc.symm⟩
  · rintro ⟨first, firstInside, _, ⟨second, secondInside, last, lastInside, rfl⟩, rfl⟩
    exact ⟨_, ⟨first, firstInside, second, secondInside, rfl⟩, last, lastInside,
      Conjunction.append_assoc⟩

/-! ## Union -/

/-- Terms of one width make a sum, and its terms are those. -/
theorem exists_ofConjunctions {terms : List Conjunction} {width : Nat} (occupied : terms ≠ [])
    (uniform : ∀ term ∈ terms, term.width = width) :
    ∃ whole, Disjunction.ofConjunctions? terms = .ok whole ∧
      ∀ term, term ∈ whole.terms.toList ↔ term ∈ terms := by
  match terms with
  | [] => exact absurd rfl occupied
  | first :: rest =>
      have sameWidth : ∀ term ∈ first :: rest, term.width = first.width := fun term member =>
        (uniform term member).trans (uniform first List.mem_cons_self).symm
      rw [Disjunction.ofConjunctions?]
      split
      case h_1 found =>
        rw [mismatchFrom_eq_none sameWidth] at found
        cases found
      case h_2 => exact ⟨_, rfl, fun term => Ascending.mem_ofList⟩

/-- Conditions on the same qudits have a union, whose alternatives are those of both. -/
theorem exists_union (same : left.width = right.width) :
    ∃ united, left.union right = .ok united ∧ united.simplified = united ∧ ∀ term,
      term ∈ united.conjunctions ↔ term ∈ left.conjunctions ∨ term ∈ right.conjunctions := by
  have uniform : ∀ term ∈ left.conjunctions ++ right.conjunctions, term.width = left.width := by
    intro term member
    rcases List.mem_append.mp member with inside | inside
    · exact width_of_mem_conjunctions inside
    · exact (width_of_mem_conjunctions inside).trans same.symm
  obtain ⟨whole, built, members⟩ := exists_ofConjunctions
    (List.append_ne_nil_of_left_ne_nil left.conjunctions_ne_nil _) uniform
  refine ⟨simplified (.sum whole), ?_, simplified_simplified, fun term => ?_⟩
  · rw [union, if_pos same, built]
    rfl
  · rw [conjunctions_simplified]
    exact (members term).trans List.mem_append

/-- Conditions on different numbers of qudits have no union. -/
theorem union_eq_error (different : left.width ≠ right.width) :
    left.union right = .error (.unionLength left.width right.width) :=
  if_neg different

/-- **The union by its alternatives.** A union is the simplified condition whose alternatives
are those of both conditions; it exists if they are on the same number of qudits. -/
theorem union_eq_ok_iff {united : Condition} :
    left.union right = .ok united ↔
      left.width = right.width ∧ united.simplified = united ∧
        ∀ term, term ∈ united.conjunctions ↔
          term ∈ left.conjunctions ∨ term ∈ right.conjunctions := by
  constructor
  · intro joined
    have same : left.width = right.width := by
      by_contra different
      rw [union_eq_error different] at joined
      cases joined
    obtain ⟨other, otherJoined, simplified, members⟩ := exists_union same
    cases otherJoined.symm.trans joined
    exact ⟨same, simplified, members⟩
  · rintro ⟨same, simplified, members⟩
    obtain ⟨other, joined, otherSimplified, otherMembers⟩ := exists_union same
    have equal : other = united := eq_of_mem_conjunctions otherSimplified simplified fun term =>
      (otherMembers term).trans (members term).symm
    rw [joined, equal]

theorem width_of_union {united : Condition} (joined : left.union right = .ok united) :
    united.width = left.width := by
  obtain ⟨_, _, members⟩ := union_eq_ok_iff.mp joined
  obtain ⟨term, inside⟩ := List.exists_mem_of_ne_nil _ left.conjunctions_ne_nil
  rw [← width_of_mem_conjunctions ((members term).mpr (.inl inside)),
    width_of_mem_conjunctions inside]

end Condition

/-! ## The laws -/

/-- Conditions with their operations, however they are stored. -/
structure ConditionOperations (C : Type) where
  width : C → Nat
  combine : C → C → C
  union : C → C → Except ConditionError C
  simplified : C → C

/-- The operations on conditions. -/
def Condition.operations : ConditionOperations Condition :=
  ⟨width, combine, union, simplified⟩

/-- The operations on plain lists, which sort only where a union is built. -/
def PlainCondition.operations : ConditionOperations PlainCondition :=
  ⟨width, combine, union, simplified⟩

namespace ConditionOperations

/-- The laws of three conditions. Both sides of a law are stored alike. -/
structure Laws {C : Type} (operations : ConditionOperations C) (first second third : C) :
    Prop where
  combine_assoc : operations.combine (operations.combine first second) third =
    operations.combine first (operations.combine second third)
  union_refused : operations.width first ≠ operations.width second →
    operations.union first second =
      .error (.unionLength (operations.width first) (operations.width second))
  union_comm : operations.width first = operations.width second →
    ∃ united, operations.union first second = .ok united ∧
      operations.union second first = .ok united
  union_assoc : operations.width first = operations.width second →
    operations.width second = operations.width third →
    ∃ front back whole, operations.union first second = .ok front ∧
      operations.union second third = .ok back ∧
      operations.union front third = .ok whole ∧ operations.union first back = .ok whole
  union_self : operations.union first first = .ok (operations.simplified first)
  union_combine : operations.width first = operations.width second →
    ∃ united, operations.union first second = .ok united ∧
      operations.union (operations.combine first third) (operations.combine second third) =
        .ok (operations.combine united third)
  combine_union : operations.width first = operations.width second →
    ∃ united, operations.union first second = .ok united ∧
      operations.union (operations.combine third first) (operations.combine third second) =
        .ok (operations.combine third united)

/-- Laws hold of what a map of conditions that keeps the operations yields. -/
theorem Laws.map {C D : Type} {source : ConditionOperations C} {target : ConditionOperations D}
    {store : C → D} (width : ∀ condition, target.width (store condition) = source.width condition)
    (combine : ∀ left right,
      store (source.combine left right) = target.combine (store left) (store right))
    (union : ∀ left right,
      (source.union left right).map store = target.union (store left) (store right))
    (simplified : ∀ condition,
      store (source.simplified condition) = target.simplified (store condition))
    {first second third : C} (laws : source.Laws first second third) :
    target.Laws (store first) (store second) (store third) := by
  have stored {left right united : C} (joined : source.union left right = .ok united) :
      target.union (store left) (store right) = .ok (store united) := by
    rw [← union, joined]
    rfl
  constructor
  case combine_assoc => simp only [← combine, laws.combine_assoc]
  case union_refused =>
    intro different
    rw [width, width] at different ⊢
    rw [← union, laws.union_refused different]
    rfl
  case union_comm =>
    intro same
    rw [width, width] at same
    obtain ⟨united, forth, back⟩ := laws.union_comm same
    exact ⟨_, stored forth, stored back⟩
  case union_assoc =>
    intro same sameThird
    rw [width, width] at same sameThird
    obtain ⟨front, back, whole, frontJoined, backJoined, left, right⟩ :=
      laws.union_assoc same sameThird
    exact ⟨_, _, _, stored frontJoined, stored backJoined, stored left, stored right⟩
  case union_self =>
    rw [← simplified]
    exact stored laws.union_self
  case union_combine =>
    intro same
    rw [width, width] at same
    obtain ⟨united, joined, distributed⟩ := laws.union_combine same
    refine ⟨_, stored joined, ?_⟩
    simp only [← combine]
    exact stored distributed
  case combine_union =>
    intro same
    rw [width, width] at same
    obtain ⟨united, joined, distributed⟩ := laws.combine_union same
    refine ⟨_, stored joined, ?_⟩
    simp only [← combine]
    exact stored distributed

end ConditionOperations

namespace Condition

variable {left right third : Condition}

/-- Union is commutative. -/
theorem union_comm (same : left.width = right.width) :
    ∃ united, left.union right = .ok united ∧ right.union left = .ok united := by
  obtain ⟨united, joined, simplified, members⟩ := exists_union same
  refine ⟨united, joined, union_eq_ok_iff.mpr ⟨same.symm, simplified, fun term => ?_⟩⟩
  rw [members, or_comm]

/-- Union is associative. -/
theorem union_assoc (same : left.width = right.width) (sameThird : right.width = third.width) :
    ∃ front back whole, left.union right = .ok front ∧ right.union third = .ok back ∧
      front.union third = .ok whole ∧ left.union back = .ok whole := by
  obtain ⟨front, frontJoined, _, frontMembers⟩ := exists_union same
  obtain ⟨back, backJoined, _, backMembers⟩ := exists_union sameThird
  obtain ⟨whole, joined, simplified, members⟩ : ∃ whole, front.union third = .ok whole ∧ _ :=
    exists_union ((width_of_union frontJoined).trans (same.trans sameThird))
  refine ⟨front, back, whole, frontJoined, backJoined, joined, union_eq_ok_iff.mpr
    ⟨same.trans (width_of_union backJoined).symm, simplified, fun term => ?_⟩⟩
  rw [members, frontMembers, backMembers, or_assoc]

theorem union_self : left.union left = .ok left.simplified := by
  refine union_eq_ok_iff.mpr ⟨rfl, simplified_simplified, fun term => ?_⟩
  rw [conjunctions_simplified, or_self]

/-- A condition is combined with a union by combining it with both sides. -/
theorem union_combine (same : left.width = right.width) :
    ∃ united, left.union right = .ok united ∧
      (left.combine third).union (right.combine third) = .ok (united.combine third) := by
  obtain ⟨united, joined, _, members⟩ := exists_union same
  refine ⟨united, joined, union_eq_ok_iff.mpr ⟨?_, simplified_combine, fun term => ?_⟩⟩
  · rw [width_combine, width_combine, same]
  · simp only [mem_conjunctions_combine, members, or_and_right, exists_or]

/-- Combination distributes over union. -/
theorem combine_union (same : left.width = right.width) :
    ∃ united, left.union right = .ok united ∧
      (third.combine left).union (third.combine right) = .ok (third.combine united) := by
  obtain ⟨united, joined, _, members⟩ := exists_union same
  refine ⟨united, joined, union_eq_ok_iff.mpr ⟨?_, simplified_combine, fun term => ?_⟩⟩
  · rw [width_combine, width_combine, same]
  · simp only [mem_conjunctions_combine, members, or_and_right, and_or_left, exists_or]

/-- The conditions obey the laws, whatever three of them are taken. -/
theorem laws (first second third : Condition) : operations.Laws first second third where
  combine_assoc := combine_assoc
  union_refused := union_eq_error
  union_comm := union_comm
  union_assoc := union_assoc
  union_self := union_self
  union_combine := union_combine
  combine_union := combine_union

end Condition

/-- **The algebra of conditions.** Combining is associative; uniting conditions on the same
qudits is commutative, associative and idempotent up to simplification, combining distributes
over it on both sides, and conditions on different numbers of qudits have no union. The laws
are equalities of stored conditions, and hold as well of the plain lists that operations
reach. -/
theorem conditions_obey_laws :
    (∀ first second third : Condition, Condition.operations.Laws first second third) ∧
    ∀ first second third : PlainCondition, first.Reachable → second.Reachable →
      third.Reachable → PlainCondition.operations.Laws first second third := by
  refine ⟨Condition.laws, ?_⟩
  intro first second third firstReached secondReached thirdReached
  obtain ⟨first, rfl⟩ := firstReached.exists_condition
  obtain ⟨second, rfl⟩ := secondReached.exists_condition
  obtain ⟨third, rfl⟩ := thirdReached.exists_condition
  exact (Condition.laws first second third).map (fun _ => Condition.width_plain)
    (fun _ _ => Condition.plain_combine) (fun _ _ => Condition.plain_union)
    (fun _ => Condition.plain_simplified)

/-- A sum of the single term `1`, the levels `0` and `1`, and the alternatives `0` and `2`:
the union of the first two, combined with the third. -/
theorem conditions_obey_laws_single :
    let single : PlainCondition := .sum 1 [[[1]]]
    let both : PlainCondition := .product [[0, 1]]
    let either : PlainCondition := .sum 1 [[[0]], [[2]]]
    single.Reachable ∧ both.Reachable ∧ either.Reachable ∧
      PlainCondition.operations.Laws single both either ∧
      single.union both = .ok (.sum 1 [[[0, 1]], [[1]]]) ∧
      (single.combine either).union (both.combine either) =
        .ok (.sum 2 [[[0, 1], [0]], [[0, 1], [2]], [[1], [0]], [[1], [2]]]) := by
  intro single both either
  have singleReached : single.Reachable := @PlainCondition.Reachable.ofAssignments [[1]] _ rfl
  have bothReached : both.Reachable := .ofSets [[1, 0]]
  have eitherReached : either.Reachable :=
    @PlainCondition.Reachable.ofAssignments [[2], [0]] _ rfl
  have laws := conditions_obey_laws.2 single both either singleReached bothReached eitherReached
  obtain ⟨united, joined, distributed⟩ := laws.union_combine rfl
  cases joined
  exact ⟨singleReached, bothReached, eitherReached, laws, rfl, distributed⟩

end QuditCircuits
