import Mathlib.Algebra.Group.Nat.Defs
import Mathlib.Data.List.Induction
import Mathlib.Data.List.Perm.Subperm
import QuditCircuits.Proofs.Condition.Algebra

/-!
# What conditions accept and enumerate

A conjunction lists the product of its sets in lexicographic order. A sum lists the assignments
of its terms one term after the other and leaves out those that have occurred before. Neither
looks at acceptance, and still the enumeration consists of what the condition accepts, each
assignment once (`expansion_enumerates_accepted`). So a statement about what the operations on
conditions accept is also one about what they enumerate (`acceptance_of_combine_and_union`).
-/

namespace QuditCircuits

section FirstOccurrences

variable {α : Type} [BEq α] [LawfulBEq α]

/-- The elements of a list, each at its first position only. -/
def firstOccurrences (items : List α) : List α :=
  (items.zipIdx.filter fun entry => items.idxOf entry.1 == entry.2).map Prod.fst

/-- An item at the end is kept if it did not occur before. -/
theorem eraseDups_concat {items : List α} {item : α} : (items ++ [item]).eraseDups =
    if item ∈ items then items.eraseDups else items.eraseDups ++ [item] := by
  rw [List.eraseDups_append]
  split
  case isTrue inside => simp [List.removeAll, inside]
  case isFalse outside => simp [List.removeAll, outside, List.eraseDups_cons]

theorem nodup_eraseDups (items : List α) : items.eraseDups.Nodup := by
  induction items using List.reverseRecOn with
  | nil => exact List.nodup_nil
  | append_singleton items item ih =>
      rw [eraseDups_concat]
      split
      case isTrue => exact ih
      case isFalse outside =>
        refine List.nodup_append.mpr ⟨ih, List.pairwise_singleton _ item, ?_⟩
        intro earlier inside last member
        cases List.mem_singleton.mp member
        exact ne_of_mem_of_not_mem (List.mem_eraseDups.mp inside) outside

/-- Leaving out repetitions keeps the first occurrences. -/
theorem eraseDups_eq_firstOccurrences (items : List α) :
    items.eraseDups = firstOccurrences items := by
  induction items using List.reverseRecOn with
  | nil => rfl
  | append_singleton items item ih =>
      have earlier : (items.zipIdx.filter fun entry =>
          (items ++ [item]).idxOf entry.1 == entry.2) =
            items.zipIdx.filter fun entry => items.idxOf entry.1 == entry.2 := by
        refine List.filter_congr fun entry member => ?_
        rw [List.idxOf_append_of_mem (List.fst_mem_of_mem_zipIdx member)]
      rw [eraseDups_concat, firstOccurrences, List.zipIdx_append, List.filter_append, earlier,
        List.map_append, ← firstOccurrences, ← ih]
      split
      case isTrue inside =>
        have before : items.idxOf item < items.length := List.idxOf_lt_length_of_mem inside
        simp [List.idxOf_append_of_mem inside, Nat.ne_of_lt before]
      case isFalse outside => simp [List.idxOf_append_of_notMem outside]

end FirstOccurrences

/-! ## Order and number -/

namespace Conjunction

/-- Assignments from ascending sets are in ascending lexicographic order. -/
theorem pairwise_assignments {sets : List (Ascending Nat)} :
    (assignments (sets.map Ascending.toList)).Pairwise (· < ·) := by
  induction sets with
  | nil => exact List.pairwise_singleton _ _
  | cons set sets ih =>
      refine List.pairwise_flatMap.mpr ⟨fun level _ => ?_, ?_⟩
      · exact List.pairwise_map.mpr (ih.imp List.Lex.cons)
      · refine set.ascending.imp fun {lower upper} less first firstMember second secondMember => ?_
        obtain ⟨_, _, rfl⟩ := List.mem_map.mp firstMember
        obtain ⟨_, _, rfl⟩ := List.mem_map.mp secondMember
        exact List.Lex.rel less

/-- A conjunction is expanded in lexicographic order. -/
theorem pairwise_expand (conjunction : Conjunction) : conjunction.expand.Pairwise (· < ·) :=
  pairwise_assignments

theorem nodup_expand (conjunction : Conjunction) : conjunction.expand.Nodup :=
  conjunction.pairwise_expand.imp fun less => ne_of_lt less

/-- There are as many assignments as the product of the sizes of the sets. -/
theorem length_assignments {sets : List (List Nat)} :
    (assignments sets).length = (sets.map List.length).prod := by
  induction sets with
  | nil => rfl
  | cons set sets ih =>
      simp only [assignments, List.length_flatMap, List.length_map, List.map_const',
        List.sum_replicate_nat, ih, List.map_cons, List.prod_cons]

theorem length_expand (conjunction : Conjunction) :
    conjunction.expand.length = (conjunction.levels.map List.length).prod :=
  length_assignments

/-- An accepted assignment has a level for each qudit. -/
theorem length_of_accepts {conjunction : Conjunction} {assignment : List Nat}
    (accepted : conjunction.accepts assignment = true) :
    assignment.length = conjunction.width := by
  obtain ⟨sets⟩ := conjunction
  change acceptsWithin sets assignment = true at accepted
  change assignment.length = sets.length
  induction sets generalizing assignment with
  | nil =>
      cases assignment with
      | nil => rfl
      | cons level levels => cases accepted
  | cons set sets ih =>
      cases assignment with
      | nil => cases accepted
      | cons level levels =>
          rw [acceptsWithin, Bool.and_eq_true] at accepted
          exact congrArg Nat.succ (ih accepted.2)

end Conjunction

namespace Disjunction

/-- An assignment that some term would list after its first `count` ones comes too late for the
first `count` assignments of the sum. -/
theorem take_eraseDups_flatMap {count : Nat} {terms : List Conjunction}
    (earlier : List (List Nat)) :
    (earlier ++ terms.flatMap (·.firstAssignments count)).eraseDups.take count =
      (earlier ++ terms.flatMap Conjunction.expand).eraseDups.take count := by
  induction terms generalizing earlier with
  | nil => rfl
  | cons term terms ih =>
      simp only [List.flatMap_cons, Conjunction.firstAssignments_eq_take]
      rcases Nat.le_total term.expand.length count with short | long
      · rw [List.take_of_length_le short, ← List.append_assoc, ← List.append_assoc]
        simpa only [Conjunction.firstAssignments_eq_take] using ih (earlier ++ term.expand)
      · -- The first `count` ones are enough already, whatever follows them.
        have enough : count ≤ (earlier ++ term.expand.take count).eraseDups.length := by
          have listed : term.expand.take count ⊆
              (earlier ++ term.expand.take count).eraseDups := fun assignment member =>
            List.mem_eraseDups.mpr (List.mem_append_right _ member)
          have distinct : (term.expand.take count).Nodup :=
            term.nodup_expand.sublist (List.take_sublist _ _)
          have length := (List.subperm_of_subset distinct listed).length_le
          rwa [List.length_take_of_le long] at length
        have front (later : List (List Nat)) :
            (earlier ++ (term.expand.take count ++ later)).eraseDups.take count =
              (earlier ++ term.expand.take count).eraseDups.take count := by
          rw [← List.append_assoc, List.eraseDups_append, List.take_append_of_le_length enough]
        have whole : term.expand ++ terms.flatMap Conjunction.expand =
            term.expand.take count ++ (term.expand.drop count ++
              terms.flatMap Conjunction.expand) := by
          rw [← List.append_assoc, List.take_append_drop]
        rw [whole, front, front]

/-- The first assignments that are asked for are the first of the expansion. -/
theorem firstAssignments_eq_take (disjunction : Disjunction) (count : Nat) :
    disjunction.firstAssignments count = disjunction.expand.take count :=
  take_eraseDups_flatMap []

end Disjunction

namespace Condition

variable {left right : Condition}

theorem nodup_expand (condition : Condition) : condition.expand.Nodup := by
  cases condition with
  | product conjunction => exact conjunction.nodup_expand
  | sum disjunction => exact nodup_eraseDups _

/-- **Bounded enumeration.** The first assignments are a prefix of all of them. -/
theorem firstAssignments_eq_take (condition : Condition) (count : Nat) :
    condition.firstAssignments count = condition.expand.take count := by
  cases condition with
  | product conjunction => exact conjunction.firstAssignments_eq_take count
  | sum disjunction => exact disjunction.firstAssignments_eq_take count

/-- Only lists with a level for each qudit are accepted. -/
theorem length_of_accepts {condition : Condition} {assignment : List Nat}
    (accepted : condition.accepts assignment = true) : assignment.length = condition.width := by
  obtain ⟨term, member, accepted⟩ := accepts_iff_exists.mp accepted
  exact (Conjunction.length_of_accepts accepted).trans (width_of_mem_conjunctions member)

end Condition

/-- **Enumeration is acceptance.** A condition enumerates the assignments it accepts, each of
them once, and a reader that stops early gets the first ones. A conjunction enumerates in
ascending lexicographic order, and as many assignments as the product of the sizes of its sets.
A sum enumerates its terms in the order they are stored in and keeps the first occurrence of
each assignment. -/
theorem expansion_enumerates_accepted :
    (∀ (condition : Condition) (assignment : List Nat),
      assignment ∈ condition.expand ↔ condition.accepts assignment = true) ∧
    (∀ condition : Condition, condition.expand.Nodup ∧
      ∀ count, condition.firstAssignments count = condition.expand.take count) ∧
    (∀ conjunction : Conjunction,
      (Condition.product conjunction).expand.Pairwise (· < ·) ∧
        (Condition.product conjunction).expand.length =
          (conjunction.levels.map List.length).prod) ∧
    ∀ disjunction : Disjunction, (Condition.sum disjunction).expand =
      firstOccurrences (disjunction.terms.toList.flatMap fun term =>
        (Condition.product term).expand) := by
  refine ⟨?_, ?_, ?_, ?_⟩
  · intro condition assignment
    exact Condition.mem_expand
  · intro condition
    exact ⟨condition.nodup_expand, condition.firstAssignments_eq_take⟩
  · intro conjunction
    exact ⟨conjunction.pairwise_expand, conjunction.length_expand⟩
  · intro disjunction
    exact eraseDups_eq_firstOccurrences _

/-- Without qudits there is one assignment, and where a qudit accepts no level there is none. -/
example : (Conjunction.ones 0).expand = [[]] ∧ (Conjunction.ofSets [[1], []]).expand = [] := by
  decide

/-! ## Acceptance of combined and united conditions -/

namespace Condition

variable {left right : Condition}

/-- A union accepts what one of its sides accepts. -/
theorem accepts_of_union {united : Condition} (joined : left.union right = .ok united)
    {assignment : List Nat} : united.accepts assignment = true ↔
      left.accepts assignment = true ∨ right.accepts assignment = true := by
  obtain ⟨_, _, members⟩ := union_eq_ok_iff.mp joined
  simp only [accepts_iff_exists, members, or_and_right, exists_or]

/-- Combined conditions enumerate the assignments of both, side by side. -/
theorem mem_expand_combine {assignment : List Nat} :
    assignment ∈ (left.combine right).expand ↔
      ∃ front ∈ left.expand, ∃ back ∈ right.expand, front ++ back = assignment := by
  simp only [mem_expand]
  constructor
  · intro accepted
    have length := length_of_accepts accepted
    rw [width_combine] at length
    have frontLength : (assignment.take left.width).length = left.width :=
      List.length_take_of_le (length ▸ Nat.le_add_right _ _)
    rw [← List.take_append_drop left.width assignment, accepts_combine frontLength,
      Bool.and_eq_true] at accepted
    exact ⟨_, accepted.1, _, accepted.2, List.take_append_drop _ _⟩
  · rintro ⟨front, frontAccepted, back, backAccepted, rfl⟩
    rw [accepts_combine (length_of_accepts frontAccepted), frontAccepted, backAccepted,
      Bool.and_self]

end Condition

/-- **The meaning of the operations.** Combined conditions cover the qudits of both and accept
two assignments side by side if each side accepts its own. Conditions on the same number of
qudits have a union on these, which accepts what one of them accepts. Simplifying changes
nothing about what is accepted. So what combined conditions enumerate are the assignments of
both side by side, and what a union enumerates are those of one side or the other. -/
theorem acceptance_of_combine_and_union (left right : Condition) :
    (∀ front back : List Nat, front.length = left.width →
      ((left.combine right).accepts (front ++ back) = true ↔
        left.accepts front = true ∧ right.accepts back = true)) ∧
    (left.combine right).width = left.width + right.width ∧
    (left.width = right.width → ∃ united, left.union right = .ok united ∧
      united.width = left.width ∧
      (∀ assignment, united.accepts assignment = true ↔
        left.accepts assignment = true ∨ right.accepts assignment = true) ∧
      ∀ assignment, assignment ∈ united.expand ↔
        assignment ∈ left.expand ∨ assignment ∈ right.expand) ∧
    (∀ assignment, left.simplified.accepts assignment = left.accepts assignment) ∧
    ∀ assignment, assignment ∈ (left.combine right).expand ↔
      ∃ front ∈ left.expand, ∃ back ∈ right.expand, front ++ back = assignment := by
  refine ⟨?_, Condition.width_combine, ?_, ?_, ?_⟩
  · intro front back length
    rw [Condition.accepts_combine length, Bool.and_eq_true]
  · intro same
    obtain ⟨united, joined, _⟩ := Condition.exists_union same
    refine ⟨united, joined, Condition.width_of_union joined, fun assignment => ?_,
      fun assignment => ?_⟩
    · exact Condition.accepts_of_union joined
    · simp only [Condition.mem_expand]
      exact Condition.accepts_of_union joined
  · intro assignment
    exact Condition.accepts_simplified
  · intro assignment
    exact Condition.mem_expand_combine

/-- Two qudits at `0, 1` or at `2, 0`, and two qudits of which the first is at level zero or one
and the second at level one. -/
theorem acceptance_of_combine_and_union_overlap :
    let either : Condition := .sum {
      width := 2
      terms := .ofList [.ofValues [2, 0], .ofValues [0, 1]]
      nonempty := by decide
      uniform := by decide }
    let product : Condition := .product (.ofSets [[1, 0], [1]])
    [2, 0].length = either.width ∧
      ((either.combine product).accepts ([2, 0] ++ [1, 1]) = true ↔
        either.accepts [2, 0] = true ∧ product.accepts [1, 1] = true) ∧
      ∃ united, either.union product = .ok united ∧ united.expand = [[0, 1], [1, 1], [2, 0]] ∧
        ∀ assignment, assignment ∈ united.expand ↔
          assignment ∈ either.expand ∨ assignment ∈ product.expand := by
  intro either product
  obtain ⟨combined, _, joined, _⟩ := acceptance_of_combine_and_union either product
  obtain ⟨united, equal, _, _, members⟩ := joined rfl
  cases equal
  exact ⟨rfl, combined [2, 0] [1, 1] rfl, _, rfl, by decide, members⟩

end QuditCircuits
