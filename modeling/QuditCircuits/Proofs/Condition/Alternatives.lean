import Mathlib.Data.List.Forall2
import QuditCircuits.Condition.Basic

/-!
# Conditions through their alternatives

What a condition accepts, enumerates and refuses depends on its list of conjunctions
only. Simplifying keeps that list, and combining two conditions forms all pairs
(`Condition.conjunctions_combine`), so acceptance and validity of a combined condition
split into those of its parts.
-/

namespace QuditCircuits

/-- Checks made in turn all pass if and only if each of them does. -/
theorem forM_eq_ok_iff {ε α : Type} {check : α → Except ε Unit} {items : List α} :
    items.forM check = .ok () ↔ ∀ item ∈ items, check item = .ok () := by
  induction items with
  | nil => simp [pure, Except.pure]
  | cons item items ih =>
      change (check item >>= fun _ => items.forM check) = _ ↔ _
      simp only [bind_eq_ok_iff, ih, List.forall_mem_cons]
      exact ⟨fun ⟨_, head, rest⟩ => ⟨head, rest⟩, fun ⟨head, rest⟩ => ⟨(), head, rest⟩⟩

namespace Conjunction

/-- The assignments of sets are the lists of levels that lie in them one by one. -/
theorem mem_assignments {sets : List (Ascending Nat)} {assignment : List Nat} :
    assignment ∈ assignments (sets.map Ascending.toList) ↔
      acceptsWithin sets assignment = true := by
  induction sets generalizing assignment with
  | nil => cases assignment <;> simp [assignments, acceptsWithin]
  | cons set sets ih =>
      cases assignment with
      | nil => simp [assignments, acceptsWithin]
      | cons level levels => simp [assignments, acceptsWithin, ih]

/-- The enumerated assignments are the accepted ones. -/
theorem mem_expand {conjunction : Conjunction} {assignment : List Nat} :
    assignment ∈ conjunction.expand ↔ conjunction.accepts assignment = true :=
  mem_assignments

/-- Appended sets accept appended levels if each part does. -/
theorem acceptsWithin_append {first second : List (Ascending Nat)} {front back : List Nat}
    (length : front.length = first.length) :
    acceptsWithin (first ++ second) (front ++ back) =
      (acceptsWithin first front && acceptsWithin second back) := by
  induction first generalizing front with
  | nil =>
      cases List.length_eq_zero_iff.mp length
      simp [acceptsWithin]
  | cons set first ih =>
      cases front with
      | nil => cases length
      | cons level front =>
          simp only [List.cons_append, acceptsWithin, ih (Nat.succ.inj length), Bool.and_assoc]

theorem accepts_append {left right : Conjunction} {front back : List Nat}
    (length : front.length = left.width) :
    (left.append right).accepts (front ++ back) = (left.accepts front && right.accepts back) :=
  acceptsWithin_append length

/-- Every accepted level is a level of its qudit, and there is one set for each qudit. -/
def Fits (conjunction : Conjunction) (shape : List Nat) : Prop :=
  List.Forall₂ (fun set dimension => ∀ level ∈ set.toList, level < dimension)
    conjunction.sets shape

/-- A conjunction that fits has a set for every qudit. -/
theorem Fits.length_eq {conjunction : Conjunction} {shape : List Nat}
    (fits : conjunction.Fits shape) : conjunction.width = shape.length :=
  List.Forall₂.length_eq fits

/-- Conjunctions that fit two registers fit the register of both, one after the other. -/
theorem Fits.append {left right : Conjunction} {leftShape rightShape : List Nat}
    (leftFits : left.Fits leftShape) (rightFits : right.Fits rightShape) :
    (left.append right).Fits (leftShape ++ rightShape) :=
  List.rel_append leftFits rightFits

/-- What a conjunction that fits a shape accepts lies within the shape. -/
theorem Fits.within {conjunction : Conjunction} {shape assignment : List Nat}
    (fits : conjunction.Fits shape) (accepted : conjunction.accepts assignment = true) :
    List.Forall₂ (· < ·) assignment shape := by
  obtain ⟨sets⟩ := conjunction
  change List.Forall₂ _ sets shape at fits
  change acceptsWithin sets assignment = true at accepted
  induction fits generalizing assignment with
  | nil =>
      cases assignment with
      | nil => exact List.Forall₂.nil
      | cons level levels => cases accepted
  | cons below _ ih =>
      cases assignment with
      | nil => cases accepted
      | cons level levels =>
          simp only [acceptsWithin, Bool.and_eq_true, List.contains_iff_mem] at accepted
          exact List.Forall₂.cons (below level accepted.1) (ih accepted.2)

/-- The check passes where every listed level is below the dimension of its qudit. -/
theorem checkFrom_eq_ok_iff {start : Nat} {sets : List (Ascending Nat)} {shape : List Nat}
    (length : sets.length = shape.length) :
    checkFrom start sets shape = .ok () ↔
      List.Forall₂ (fun set dimension => ∀ level ∈ set.toList, level < dimension) sets shape := by
  induction sets generalizing start shape with
  | nil =>
      cases List.length_eq_zero_iff.mp length.symm
      simp [checkFrom]
  | cons set sets ih =>
      cases shape with
      | nil => cases length
      | cons dimension shape =>
          rw [List.forall₂_cons, checkFrom]
          split
          case h_1 level found =>
            have member := List.mem_of_find?_eq_some found
            have large : dimension ≤ level := by simpa using List.find?_some found
            simp only [reduceCtorEq, false_iff, not_and]
            exact fun below _ => absurd (below level member) (Nat.not_lt.mpr large)
          case h_2 none =>
            have below : ∀ level ∈ set.toList, level < dimension := by
              simpa using List.find?_eq_none.mp none
            simp only [eq_true below, true_and]
            exact ih (Nat.succ.inj length)

theorem validate_eq_ok_iff {conjunction : Conjunction} {shape : List Nat} :
    conjunction.validate shape = .ok () ↔ conjunction.Fits shape := by
  unfold validate
  split
  case isTrue length => exact checkFrom_eq_ok_iff length.symm
  case isFalse different =>
    simp only [reduceCtorEq, false_iff]
    exact fun fits => different fits.length_eq.symm

end Conjunction

namespace Condition

theorem conjunctions_ne_nil (condition : Condition) : condition.conjunctions ≠ [] := by
  cases condition with
  | product conjunction => simp [conjunctions]
  | sum disjunction => exact disjunction.nonempty

/-- All alternatives are about the same number of qudits. -/
theorem width_of_mem_conjunctions {condition : Condition} {term : Conjunction}
    (member : term ∈ condition.conjunctions) : term.width = condition.width := by
  cases condition with
  | product conjunction =>
      cases List.mem_singleton.mp member
      rfl
  | sum disjunction => exact disjunction.uniform term member

/-- A condition holds if one of its alternatives does. -/
theorem accepts_iff_exists {condition : Condition} {assignment : List Nat} :
    condition.accepts assignment = true ↔
      ∃ term ∈ condition.conjunctions, term.accepts assignment = true := by
  cases condition with
  | product conjunction => simp [accepts, conjunctions]
  | sum disjunction => simp [accepts, conjunctions, Disjunction.accepts]

/-- The enumerated assignments of a condition are the accepted ones. -/
theorem mem_expand {condition : Condition} {assignment : List Nat} :
    assignment ∈ condition.expand ↔ condition.accepts assignment = true := by
  rw [accepts_iff_exists]
  cases condition with
  | product conjunction => simp [expand, conjunctions, Conjunction.mem_expand]
  | sum disjunction =>
      simp [expand, conjunctions, Disjunction.expand, Conjunction.mem_expand]

/-- The check of the levels passes if every alternative fits. -/
theorem validateInner_eq_ok_iff {condition : Condition} {shape : List Nat} :
    condition.validateInner shape = .ok () ↔
      ∀ term ∈ condition.conjunctions, term.Fits shape := by
  cases condition with
  | product conjunction => simp [validateInner, conjunctions, Conjunction.validate_eq_ok_iff]
  | sum disjunction =>
      simp only [validateInner, conjunctions, Disjunction.validate, forM_eq_ok_iff,
        Conjunction.validate_eq_ok_iff]

/-- A condition is valid for a shape if each of its alternatives fits it. -/
theorem validate_eq_ok_iff {condition : Condition} {shape : List Nat} :
    condition.validate shape = .ok () ↔ ∀ term ∈ condition.conjunctions, term.Fits shape := by
  rw [← validateInner_eq_ok_iff, validate]
  split
  case isTrue length => rfl
  case isFalse different =>
    simp only [reduceCtorEq, false_iff]
    intro valid
    obtain ⟨term, member⟩ := List.exists_mem_of_ne_nil _ condition.conjunctions_ne_nil
    have fits := validateInner_eq_ok_iff.mp valid term member
    exact different (fits.length_eq.symm.trans (width_of_mem_conjunctions member))

/-- A valid condition is about all qudits of the register. -/
theorem length_eq_of_validate {condition : Condition} {shape : List Nat}
    (valid : condition.validate shape = .ok ()) : shape.length = condition.width := by
  obtain ⟨term, member⟩ := List.exists_mem_of_ne_nil _ condition.conjunctions_ne_nil
  rw [← width_of_mem_conjunctions member, (validate_eq_ok_iff.mp valid term member).length_eq]

/-- What a valid condition accepts lies within the shape. -/
theorem within_of_accepts {condition : Condition} {shape assignment : List Nat}
    (valid : condition.validate shape = .ok ()) (accepted : condition.accepts assignment = true) :
    List.Forall₂ (· < ·) assignment shape := by
  obtain ⟨term, member, accepted⟩ := accepts_iff_exists.mp accepted
  exact (validate_eq_ok_iff.mp valid term member).within accepted

theorem conjunctions_simplified {condition : Condition} :
    condition.simplified.conjunctions = condition.conjunctions := by
  cases condition with
  | product conjunction => rfl
  | sum disjunction =>
      simp only [simplified]
      split
      case h_1 only => exact only.symm
      case h_2 => rfl

theorem simplified_simplified {condition : Condition} :
    condition.simplified.simplified = condition.simplified := by
  cases condition with
  | product conjunction => rfl
  | sum disjunction =>
      match terms : disjunction.terms.toList with
      | [] => simp only [simplified, terms]
      | [conjunction] => simp only [simplified, terms]
      | first :: second :: rest => simp only [simplified, terms]

/-- A combination is in simplified form. -/
theorem simplified_combine {left right : Condition} :
    (left.combine right).simplified = left.combine right := by
  cases left <;> cases right
  case product.product => rfl
  all_goals simp only [combine, simplified_simplified]

theorem conjunctions_combine {left right : Condition} :
    (left.combine right).conjunctions =
      left.conjunctions.flatMap fun first => right.conjunctions.map first.append := by
  have pairs (first second : Disjunction) :
      (simplified (.sum (first.append second))).conjunctions =
        first.terms.toList.flatMap fun term => second.terms.toList.map term.append :=
    conjunctions_simplified
  cases left with
  | product left =>
      cases right with
      | product right => simp [combine, conjunctions]
      | sum right => exact pairs (.singleton left) right
  | sum left =>
      cases right with
      | product right => exact pairs left (.singleton right)
      | sum right => exact pairs left right

/-- Simplification keeps what is accepted. -/
theorem accepts_simplified {condition : Condition} {assignment : List Nat} :
    condition.simplified.accepts assignment = condition.accepts assignment := by
  rw [Bool.eq_iff_iff, accepts_iff_exists, accepts_iff_exists, conjunctions_simplified]

/-- Simplification keeps the registers for which a condition is valid. -/
theorem validate_simplified_iff {condition : Condition} {shape : List Nat} :
    condition.simplified.validate shape = .ok () ↔ condition.validate shape = .ok () := by
  rw [validate_eq_ok_iff, validate_eq_ok_iff, conjunctions_simplified]

/-- A combined condition accepts what both parts accept on their own qudits. -/
theorem accepts_combine {left right : Condition} {front back : List Nat}
    (length : front.length = left.width) :
    (left.combine right).accepts (front ++ back) = (left.accepts front && right.accepts back) := by
  rw [Bool.eq_iff_iff, Bool.and_eq_true, accepts_iff_exists, accepts_iff_exists,
    accepts_iff_exists, conjunctions_combine]
  constructor
  · rintro ⟨term, member, accepted⟩
    obtain ⟨first, firstMember, member⟩ := List.mem_flatMap.mp member
    obtain ⟨second, secondMember, rfl⟩ := List.mem_map.mp member
    rw [Conjunction.accepts_append (length.trans (width_of_mem_conjunctions firstMember).symm),
      Bool.and_eq_true] at accepted
    exact ⟨⟨first, firstMember, accepted.1⟩, ⟨second, secondMember, accepted.2⟩⟩
  · rintro ⟨⟨first, firstMember, front⟩, ⟨second, secondMember, back⟩⟩
    refine ⟨first.append second, List.mem_flatMap.mpr
      ⟨first, firstMember, List.mem_map.mpr ⟨second, secondMember, rfl⟩⟩, ?_⟩
    rw [Conjunction.accepts_append (length.trans (width_of_mem_conjunctions firstMember).symm),
      front, back, Bool.and_self]

/-- Conditions that are valid for two registers combine to one that is valid for both. -/
theorem validate_combine {left right : Condition} {leftShape rightShape : List Nat}
    (leftValid : left.validate leftShape = .ok ())
    (rightValid : right.validate rightShape = .ok ()) :
    (left.combine right).validate (leftShape ++ rightShape) = .ok () := by
  rw [validate_eq_ok_iff, conjunctions_combine]
  intro term member
  obtain ⟨first, firstMember, member⟩ := List.mem_flatMap.mp member
  obtain ⟨second, secondMember, rfl⟩ := List.mem_map.mp member
  exact (validate_eq_ok_iff.mp leftValid first firstMember).append
    (validate_eq_ok_iff.mp rightValid second secondMember)

end Condition

end QuditCircuits
