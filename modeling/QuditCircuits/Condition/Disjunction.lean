import QuditCircuits.Condition.Conjunction

/-!
# Disjunctions

A disjunction holds when one of its conjunctions does. All conjunctions cover the
same qudits, and they are stored in ascending order without repetitions, so that
equality does not depend on how the disjunction was written down. Concatenating
two disjunctions conjunction by conjunction keeps that order
(`Disjunction.append`), because conjunctions of one width are compared by their
leading parts first.
-/

namespace QuditCircuits

/-- A nonempty set of conjunctions over the same number of control qudits. -/
structure Disjunction where
  width : Nat
  terms : Ascending Conjunction
  nonempty : terms.toList ≠ []
  uniform : ∀ term ∈ terms.toList, term.width = width
deriving DecidableEq

namespace Disjunction

theorem ext {first second : Disjunction} (width : first.width = second.width)
    (terms : first.terms = second.terms) : first = second := by
  cases first
  cases second
  cases width
  cases terms
  rfl

/-- The position and width of the first conjunction whose width differs. -/
def mismatchFrom (width start : Nat) : List Conjunction → Option (Nat × Nat)
  | [] => none
  | term :: terms =>
      if term.width = width then mismatchFrom width (start + 1) terms
      else some (start, term.width)

/-- Alternatives without a mismatch have one width. -/
theorem width_eq_of_mismatchFrom {width start : Nat} {terms : List Conjunction}
    (none : mismatchFrom width start terms = none) : ∀ term ∈ terms, term.width = width := by
  induction terms generalizing start with
  | nil => simp
  | cons term terms previous =>
      unfold mismatchFrom at none
      split at none
      next same =>
        intro other inside
        rcases List.mem_cons.mp inside with rfl | inside
        · exact same
        · exact previous none other inside
      next => cases none

/-- The disjunction of a list of conjunctions in any order and with any
repetitions. -/
def ofConjunctions? : List Conjunction → Except ConditionError Disjunction
  | [] => .error .emptyDisjunction
  | first :: rest =>
      match agree : mismatchFrom first.width 0 (first :: rest) with
      | some (index, width) => .error (.conjunctionLength index first.width width)
      | none => .ok {
          width := first.width
          terms := Ascending.ofList (first :: rest)
          nonempty := List.ne_nil_of_mem (Ascending.mem_ofList.mpr List.mem_cons_self)
          uniform := fun term inside =>
            width_eq_of_mismatchFrom agree term (Ascending.mem_ofList.mp inside) }

/-- The disjunction accepting exactly the listed assignments. -/
def ofAssignments? (assignments : List (List Nat)) : Except ConditionError Disjunction :=
  ofConjunctions? (assignments.map Conjunction.ofValues)

/-- The disjunction of one conjunction. -/
def singleton (term : Conjunction) : Disjunction where
  width := term.width
  terms := Ascending.singleton term
  nonempty := by simp [Ascending.singleton]
  uniform := by simp [Ascending.singleton]

/-- Lists of one length are ordered by their first difference, whatever stands behind them. -/
theorem append_lt_append_of_lt {α : Type} [LT α] {first second : List α}
    (length : first.length = second.length) (less : first < second)
    (firstRest secondRest : List α) : first ++ firstRest < second ++ secondRest := by
  induction less with
  | nil => simp at length
  | rel less => exact List.Lex.rel less
  | cons _ previous => exact List.Lex.cons (previous (by simpa using length))

/-- The disjunction over the qudits of both, those of `left` first. It holds when
both hold on their own qudits. -/
def append (left right : Disjunction) : Disjunction where
  width := left.width + right.width
  terms := {
    toList := left.terms.toList.flatMap fun first =>
      right.terms.toList.map fun second => first.append second
    ascending := by
      refine List.pairwise_flatMap.mpr ⟨fun first _ => ?_, ?_⟩
      · exact List.pairwise_map.mpr (right.terms.ascending.imp List.append_left_lt)
      · refine List.Pairwise.imp_of_mem ?_ left.terms.ascending
        intro first second firstInside secondInside less
        simp only [List.mem_map]
        rintro _ ⟨firstRest, _, rfl⟩ _ ⟨secondRest, _, rfl⟩
        exact append_lt_append_of_lt
          ((left.uniform first firstInside).trans (left.uniform second secondInside).symm)
          less firstRest.sets secondRest.sets }
  nonempty := by
    obtain ⟨first, firstInside⟩ := List.exists_mem_of_ne_nil _ left.nonempty
    obtain ⟨second, secondInside⟩ := List.exists_mem_of_ne_nil _ right.nonempty
    exact List.ne_nil_of_mem (List.mem_flatMap.mpr
      ⟨first, firstInside, List.mem_map.mpr ⟨second, secondInside, rfl⟩⟩)
  uniform := by
    simp only [List.mem_flatMap, List.mem_map]
    rintro _ ⟨first, firstInside, second, secondInside, rfl⟩
    simp [left.uniform first firstInside, right.uniform second secondInside]

/-- The accepted assignments of the conjunctions in order, each kept where it
occurs first. -/
def expand (disjunction : Disjunction) : List (List Nat) :=
  (disjunction.terms.toList.flatMap Conjunction.expand).eraseDups

/-- The first `count` assignments. No conjunction contributes more than `count`. -/
def firstAssignments (disjunction : Disjunction) (count : Nat) : List (List Nat) :=
  ((disjunction.terms.toList.flatMap (·.firstAssignments count)).eraseDups).take count

/-- Whether a reader that asked for `count` assignments gets one by asking again. Past
its end the enumeration yields nothing. -/
def yieldsAfter (disjunction : Disjunction) (count : Nat) : Bool :=
  count < (disjunction.firstAssignments (count + 1)).length

/-- Whether some conjunction accepts the assignment. -/
def accepts (disjunction : Disjunction) (assignment : List Nat) : Bool :=
  disjunction.terms.toList.any (·.accepts assignment)

/-- Whether the only conjunction accepts exactly level one everywhere. -/
def isTrivial (disjunction : Disjunction) : Bool :=
  match disjunction.terms.toList with
  | [term] => term.isTrivial
  | _ => false

/-- Checks every conjunction in turn. -/
def validate (disjunction : Disjunction) (shape : List Nat) : Except ConditionError Unit :=
  disjunction.terms.toList.forM (·.validate shape)

end Disjunction

end QuditCircuits
