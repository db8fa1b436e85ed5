import Mathlib.Data.List.Lex
import Mathlib.Data.List.Sort
import Mathlib.Data.Set.List
import QuditCircuits.Proofs.Condition.Alternatives

/-!
# Canonical conditions

Conditions carry the proofs that their sets and conjunctions are in ascending order.
`PlainCondition` forgets these proofs: it has the stored lists only, with operations that sort
where a condition is built or united, and do not sort where conditions are combined. What
these operations reach is exactly what conditions store
(`PlainCondition.reachable_iff_exists_condition`), so it is in canonical form, and combining
yields what building from all pairs would yield.
-/

namespace QuditCircuits

/-! ## Sets by their members -/

namespace Ascending

variable {α : Type} [LT α] [LE α] [Std.IsLinearOrder α] [Std.LawfulOrderLT α]

/-- **Canonical form.** Sets with the same members are stored alike. -/
theorem ext_mem {first second : Ascending α}
    (same : ∀ member, member ∈ first.toList ↔ member ∈ second.toList) : first = second :=
  ext (first.ascending.eq_of_mem_iff second.ascending same)

/-- The stored list already is the set of its members. -/
theorem ofList_toList [DecidableLT α] [DecidableEq α] (set : Ascending α) :
    ofList set.toList = set :=
  ext_mem fun _ => mem_ofList

end Ascending

/-! ## Plain conditions -/

/-- A condition as plain lists of accepted levels. -/
inductive PlainCondition where
  | product (sets : List (List Nat))
  | sum (width : Nat) (terms : List (List (List Nat)))
deriving DecidableEq

namespace PlainCondition

/-- The number of control qudits. -/
def width : PlainCondition → Nat
  | product sets => sets.length
  | sum width _ => width

/-- The alternatives of a condition. -/
def terms : PlainCondition → List (List (List Nat))
  | product sets => [sets]
  | sum _ terms => terms

/-- Writes a sum of one term as that term. -/
def simplified : PlainCondition → PlainCondition
  | sum _ [term] => product term
  | condition => condition

/-- All alternatives of two conditions side by side. -/
def pairs (left right : PlainCondition) : List (List (List Nat)) :=
  left.terms.flatMap fun first => right.terms.map fun second => first ++ second

/-- The condition of both. Nothing is sorted here. -/
def combine : PlainCondition → PlainCondition → PlainCondition
  | product left, product right => product (left ++ right)
  | left, right => simplified (sum (left.width + right.width) (left.pairs right))

/-- The set of levels that a description stands for. -/
def levels : LevelSpec → List Nat
  | .value level => [level]
  | .set levels => (Ascending.ofList levels).toList

/-- The sum of terms in any order and with any repetitions. -/
def ofTerms? : List (List (List Nat)) → Except ConditionError PlainCondition
  | [] => .error .emptyDisjunction
  | first :: rest =>
      match (first :: rest).zipIdx.find? fun entry => entry.1.length != first.length with
      | some (term, index) => .error (.conjunctionLength index first.length term.length)
      | none => .ok (sum first.length (Ascending.ofList (first :: rest)).toList)

/-- The alternatives of two conditions on the same qudits. -/
def union (left right : PlainCondition) : Except ConditionError PlainCondition :=
  if left.width = right.width then (ofTerms? (left.terms ++ right.terms)).map simplified
  else .error (.unionLength left.width right.width)

/-- What the operations on conditions can reach, in any order and number. -/
inductive Reachable : PlainCondition → Prop
  | ofSpecs (specs : List LevelSpec) : Reachable (product (specs.map levels))
  | ofValues (values : List Nat) : Reachable (product (values.map fun value => [value]))
  | ofSets (sets : List (List Nat)) :
      Reachable (product (sets.map fun set => (Ascending.ofList set).toList))
  | ones (count : Nat) : Reachable (product (List.replicate count [1]))
  | ofTerms {terms : List (List (List Nat))} {condition : PlainCondition}
      (parts : ∀ term ∈ terms, Reachable (product term))
      (built : ofTerms? terms = .ok condition) : Reachable condition
  | ofAssignments {assignments : List (List Nat)} {condition : PlainCondition}
      (built : ofTerms? (assignments.map fun values => values.map fun value => [value]) =
        .ok condition) : Reachable condition
  | term {condition : PlainCondition} {term : List (List Nat)} (whole : Reachable condition)
      (member : term ∈ condition.terms) : Reachable (product term)
  | combine {left right : PlainCondition} (first : Reachable left) (second : Reachable right) :
      Reachable (left.combine right)
  | union {left right condition : PlainCondition} (first : Reachable left)
      (second : Reachable right) (united : left.union right = .ok condition) : Reachable condition
  | simplified {condition : PlainCondition} (whole : Reachable condition) :
      Reachable condition.simplified

/-- Every set is strictly ascending. There is an alternative; all alternatives have one set
for each qudit, and they are strictly ascending in lexicographic order. -/
structure Canonical (condition : PlainCondition) : Prop where
  sets : ∀ term ∈ condition.terms, ∀ set ∈ term, set.Pairwise (· < ·)
  nonempty : condition.terms ≠ []
  uniform : ∀ term ∈ condition.terms, term.length = condition.width
  ascending : condition.terms.Pairwise (· < ·)

end PlainCondition

/-! ## What conditions store -/

/-- The stored lists of a condition. -/
def Condition.plain : Condition → PlainCondition
  | .product conjunction => .product conjunction.levels
  | .sum disjunction => .sum disjunction.width (disjunction.terms.toList.map Conjunction.levels)

namespace Conjunction

@[simp] theorem length_levels {conjunction : Conjunction} :
    conjunction.levels.length = conjunction.width :=
  List.length_map _

theorem levels_append {left right : Conjunction} :
    (left.append right).levels = left.levels ++ right.levels :=
  List.map_append

/-- Conjunctions are ordered as their stored lists are. -/
theorem levels_lt_levels {first second : Conjunction} (less : first < second) :
    first.levels < second.levels := by
  obtain ⟨first⟩ := first
  obtain ⟨second⟩ := second
  change first < second at less
  change first.map Ascending.toList < second.map Ascending.toList
  induction less with
  | nil => exact List.Lex.nil
  | rel less => exact List.Lex.rel less
  | cons _ ih => exact List.Lex.cons ih

/-- A conjunction of descriptions has the levels that they describe. -/
theorem levels_ofSpecs {specs : List LevelSpec} :
    (ofSpecs specs).levels = specs.map PlainCondition.levels := by
  rw [levels, ofSpecs, List.map_map]
  refine List.map_congr_left fun spec _ => ?_
  cases spec <;> rfl

/-- A conjunction of single levels has one level for each qudit. -/
theorem levels_ofValues {values : List Nat} :
    (ofValues values).levels = values.map fun value => [value] := by
  rw [ofValues, levels_ofSpecs, List.map_map]
  rfl

/-- A conjunction of sets has their levels in order, without repetition. -/
theorem levels_ofSets {sets : List (List Nat)} :
    (ofSets sets).levels = sets.map fun set => (Ascending.ofList set).toList := by
  rw [ofSets, levels_ofSpecs, List.map_map]
  rfl

theorem levels_ones {count : Nat} : (ones count).levels = List.replicate count [1] :=
  List.map_replicate

/-- Sorting conjunctions sorts their stored lists. -/
theorem ofList_map_levels {terms : List Conjunction} :
    (Ascending.ofList (terms.map levels)).toList = (Ascending.ofList terms).toList.map levels := by
  refine (Ascending.ascending _).eq_of_mem_iff ?_ fun term => ?_
  · exact List.pairwise_map.mpr ((Ascending.ascending _).imp levels_lt_levels)
  · simp only [Ascending.mem_ofList, List.mem_map]

end Conjunction

namespace Condition

theorem terms_plain {condition : Condition} :
    condition.plain.terms = condition.conjunctions.map Conjunction.levels := by
  cases condition <;> rfl

theorem width_plain {condition : Condition} : condition.plain.width = condition.width := by
  cases condition with
  | product conjunction => exact Conjunction.length_levels
  | sum disjunction => rfl

/-- Simplification of the plain form is the plain form of the simplified condition. -/
theorem plain_simplified {condition : Condition} :
    condition.simplified.plain = condition.plain.simplified := by
  cases condition with
  | product conjunction => rfl
  | sum disjunction =>
      match terms : disjunction.terms.toList with
      | [] => exact absurd terms disjunction.nonempty
      | [term] => simp only [simplified, plain, terms, List.map, PlainCondition.simplified]
      | first :: second :: rest =>
          simp only [simplified, plain, terms, List.map, PlainCondition.simplified]

theorem conjunctions_toDisjunction {condition : Condition} :
    condition.toDisjunction.terms.toList = condition.conjunctions := by
  cases condition <;> rfl

theorem width_toDisjunction {condition : Condition} :
    condition.toDisjunction.width = condition.width := by
  cases condition <;> rfl

/-- The pairs of plain alternatives are those of the combination. -/
theorem pairs_plain {left right : Condition} : left.plain.pairs right.plain =
    (left.conjunctions.flatMap fun first => right.conjunctions.map first.append).map
      Conjunction.levels := by
  simp only [PlainCondition.pairs, terms_plain, List.map_flatMap, List.map_map,
    List.flatMap_map, Function.comp_def, Conjunction.levels_append]

theorem plain_append {left right : Condition} :
    (sum (left.toDisjunction.append right.toDisjunction)).plain =
      .sum (left.plain.width + right.plain.width) (left.plain.pairs right.plain) := by
  rw [pairs_plain, width_plain, width_plain, ← width_toDisjunction, ← width_toDisjunction,
    ← conjunctions_toDisjunction, ← conjunctions_toDisjunction]
  rfl

/-- Combined conditions store the pairs as they come. -/
theorem plain_combine {left right : Condition} :
    (left.combine right).plain = left.plain.combine right.plain := by
  cases left with
  | product left =>
      cases right with
      | product right => exact congrArg PlainCondition.product Conjunction.levels_append
      | sum right =>
          exact plain_simplified.trans (congrArg PlainCondition.simplified plain_append)
  | sum left =>
      cases right with
      | product right =>
          exact plain_simplified.trans (congrArg PlainCondition.simplified plain_append)
      | sum right =>
          exact plain_simplified.trans (congrArg PlainCondition.simplified plain_append)

/-- The first conjunction of a different width is the first list of a different length. -/
theorem mismatchFrom_eq_find? {width start : Nat} {terms : List Conjunction} :
    Disjunction.mismatchFrom width start terms =
      (((terms.map Conjunction.levels).zipIdx start).find? fun entry =>
        entry.1.length != width).map fun entry => (entry.2, entry.1.length) := by
  induction terms generalizing start with
  | nil => rfl
  | cons term terms ih =>
      rw [Disjunction.mismatchFrom, ih, List.map_cons, List.zipIdx_cons, List.find?_cons,
        Conjunction.length_levels]
      by_cases same : term.width = width
      · rw [if_pos same, bne_eq_false_iff_eq.mpr same]
      · rw [if_neg same, bne_iff_ne.mpr same, Option.map_some, Conjunction.length_levels]

/-- Alternatives of one width have no mismatch. -/
theorem mismatchFrom_eq_none {width start : Nat} {terms : List Conjunction}
    (uniform : ∀ term ∈ terms, term.width = width) :
    Disjunction.mismatchFrom width start terms = none := by
  induction terms generalizing start with
  | nil => rfl
  | cons term terms ih =>
      obtain ⟨head, rest⟩ := List.forall_mem_cons.mp uniform
      rw [Disjunction.mismatchFrom, if_pos head, ih rest]

/-- A disjunction is built from conjunctions as a plain sum is built from their levels, and it is
refused for the same reason. -/
theorem plain_ofConjunctions? {terms : List Conjunction} :
    ((Disjunction.ofConjunctions? terms).map fun disjunction => (sum disjunction).plain) =
      PlainCondition.ofTerms? (terms.map Conjunction.levels) := by
  cases terms with
  | nil => rfl
  | cons first rest =>
      have agree : Disjunction.mismatchFrom first.width 0 (first :: rest) = _ :=
        mismatchFrom_eq_find?
      rw [List.map_cons, PlainCondition.ofTerms?, Disjunction.ofConjunctions?,
        Conjunction.length_levels, ← List.map_cons]
      split
      case h_1 index width found =>
        rw [found] at agree
        obtain ⟨⟨term, position⟩, differs, same⟩ := Option.map_eq_some_iff.mp agree.symm
        obtain ⟨rfl, rfl⟩ := Prod.mk.inj same
        rw [differs]
        rfl
      case h_2 none =>
        rw [none] at agree
        rw [Option.map_eq_none_iff.mp agree.symm]
        exact congrArg (fun terms => Except.ok (PlainCondition.sum first.width terms))
          Conjunction.ofList_map_levels.symm

/-- The plain form of a union is the union of the plain forms, or both are refused. -/
theorem plain_union {left right : Condition} :
    (left.union right).map plain = left.plain.union right.plain := by
  rw [union, PlainCondition.union, width_plain, width_plain, terms_plain, terms_plain,
    ← List.map_append, ← plain_ofConjunctions?]
  split
  · cases Disjunction.ofConjunctions? (left.conjunctions ++ right.conjunctions) with
    | error reason => rfl
    | ok disjunction => exact congrArg Except.ok plain_simplified
  · rfl

/-- Stored conditions are in canonical form. -/
theorem canonical_plain (condition : Condition) : condition.plain.Canonical where
  sets := by
    intro term member set inside
    rw [terms_plain] at member
    obtain ⟨conjunction, _, rfl⟩ := List.mem_map.mp member
    obtain ⟨set, _, rfl⟩ := List.mem_map.mp inside
    exact set.ascending
  nonempty := by
    rw [terms_plain]
    exact mt List.map_eq_nil_iff.mp condition.conjunctions_ne_nil
  uniform := by
    intro term member
    rw [terms_plain] at member
    obtain ⟨conjunction, inside, rfl⟩ := List.mem_map.mp member
    rw [Conjunction.length_levels, width_plain, width_of_mem_conjunctions inside]
  ascending := by
    cases condition with
    | product conjunction => exact List.pairwise_singleton _ _
    | sum disjunction =>
        exact List.pairwise_map.mpr (disjunction.terms.ascending.imp Conjunction.levels_lt_levels)

/-- Building from what is stored changes nothing. -/
theorem ofConjunctions?_toList (disjunction : Disjunction) :
    Disjunction.ofConjunctions? disjunction.terms.toList = .ok disjunction := by
  match terms : disjunction.terms.toList with
  | [] => exact absurd terms disjunction.nonempty
  | first :: rest =>
      have uniform := terms ▸ disjunction.uniform
      have width := uniform first List.mem_cons_self
      rw [Disjunction.ofConjunctions?]
      split
      case h_1 found =>
        rw [width, mismatchFrom_eq_none uniform] at found
        cases found
      case h_2 =>
        refine congrArg Except.ok (Disjunction.ext width ?_)
        exact (congrArg Ascending.ofList terms).symm.trans (Ascending.ofList_toList _)

/-- Combination is simplification of the appended disjunctions. -/
theorem combine_eq_simplified {left right : Condition} : left.combine right =
    simplified (.sum (left.toDisjunction.append right.toDisjunction)) := by
  cases left with
  | product left => cases right <;> rfl
  | sum left => rfl

/-- Building from all pairs succeeds and yields the combined condition. -/
theorem ofConjunctions?_pairs (left right : Condition) :
    ((Disjunction.ofConjunctions? (left.conjunctions.flatMap fun first =>
      right.conjunctions.map first.append)).map fun whole => simplified (.sum whole)) =
        .ok (left.combine right) := by
  rw [combine_eq_simplified, ← conjunctions_toDisjunction, ← conjunctions_toDisjunction]
  exact congrArg (Except.map _)
    (ofConjunctions?_toList (left.toDisjunction.append right.toDisjunction))

end Condition

/-! ## What operations reach -/

namespace PlainCondition

/-- The sets of a plain product are those of a conjunction, so they are in order and without
repetition. -/
theorem exists_conjunction_of_product {condition : Condition} {sets : List (List Nat)}
    (same : condition.plain = product sets) : ∃ conjunction : Conjunction,
      conjunction.levels = sets := by
  cases condition with
  | product conjunction => exact ⟨conjunction, product.inj same⟩
  | sum disjunction => cases same

/-- A condition built from stored conjunctions is stored. -/
theorem exists_condition_of_ofTerms (terms : List Conjunction) {stored : PlainCondition}
    (built : ofTerms? (terms.map Conjunction.levels) = .ok stored) :
    ∃ condition : Condition, condition.plain = stored := by
  rw [← Condition.plain_ofConjunctions?] at built
  cases whole : Disjunction.ofConjunctions? terms with
  | error reason =>
      rw [whole] at built
      cases built
  | ok disjunction =>
      rw [whole] at built
      exact ⟨.sum disjunction, Except.ok.inj built⟩

/-- What operations reach is stored by a condition. -/
theorem Reachable.exists_condition {stored : PlainCondition} (reached : stored.Reachable) :
    ∃ condition : Condition, condition.plain = stored := by
  induction reached with
  | ofSpecs specs => exact ⟨.product (.ofSpecs specs), congrArg product Conjunction.levels_ofSpecs⟩
  | ofValues values =>
      exact ⟨.product (.ofValues values), congrArg product Conjunction.levels_ofValues⟩
  | ofSets sets => exact ⟨.product (.ofSets sets), congrArg product Conjunction.levels_ofSets⟩
  | ones count => exact ⟨.product (.ones count), congrArg product Conjunction.levels_ones⟩
  | @ofTerms terms whole _ built parts =>
      have stored : ∀ term ∈ terms, ∃ conjunction : Conjunction, conjunction.levels = term := by
        intro term member
        obtain ⟨condition, same⟩ := parts term member
        exact exists_conjunction_of_product same
      obtain ⟨conjunctions, rfl⟩ : ∃ conjunctions : List Conjunction,
          conjunctions.map Conjunction.levels = terms :=
        (Set.range_list_map Conjunction.levels).ge stored
      exact exists_condition_of_ofTerms conjunctions built
  | @ofAssignments assignments whole built =>
      refine exists_condition_of_ofTerms (assignments.map Conjunction.ofValues) ?_
      rw [← built, List.map_map]
      exact congrArg ofTerms? (List.map_congr_left fun _ _ => Conjunction.levels_ofValues)
  | term _ member previous =>
      obtain ⟨condition, rfl⟩ := previous
      rw [Condition.terms_plain] at member
      obtain ⟨conjunction, _, rfl⟩ := List.mem_map.mp member
      exact ⟨.product conjunction, rfl⟩
  | combine _ _ first second =>
      obtain ⟨left, rfl⟩ := first
      obtain ⟨right, rfl⟩ := second
      exact ⟨left.combine right, Condition.plain_combine⟩
  | union _ _ united first second =>
      obtain ⟨left, rfl⟩ := first
      obtain ⟨right, rfl⟩ := second
      rw [← Condition.plain_union] at united
      cases joined : left.union right with
      | error reason =>
          rw [joined] at united
          cases united
      | ok condition =>
          rw [joined] at united
          exact ⟨condition, Except.ok.inj united⟩
  | simplified _ previous =>
      obtain ⟨condition, rfl⟩ := previous
      exact ⟨condition.simplified, Condition.plain_simplified⟩

/-- Every conjunction can be built from its sets. -/
theorem reachable_levels {conjunction : Conjunction} :
    (product conjunction.levels).Reachable := by
  have same : (conjunction.levels.map fun set => (Ascending.ofList set).toList) =
      conjunction.levels := by
    rw [Conjunction.levels, List.map_map]
    exact List.map_congr_left fun set _ => congrArg Ascending.toList set.ofList_toList
  exact same ▸ Reachable.ofSets conjunction.levels

/-- Every condition can be built from its alternatives. -/
theorem reachable_plain (condition : Condition) : condition.plain.Reachable := by
  cases condition with
  | product conjunction => exact reachable_levels
  | sum disjunction =>
      have built : ofTerms? (disjunction.terms.toList.map Conjunction.levels) =
          .ok (Condition.sum disjunction).plain := by
        rw [← Condition.plain_ofConjunctions?, Condition.ofConjunctions?_toList]
        rfl
      apply Reachable.ofTerms _ built
      intro term member
      obtain ⟨conjunction, _, rfl⟩ := List.mem_map.mp member
      exact reachable_levels

/-- Conditions store exactly what operations reach. -/
theorem reachable_iff_exists_condition {stored : PlainCondition} :
    stored.Reachable ↔ ∃ condition : Condition, condition.plain = stored := by
  refine ⟨Reachable.exists_condition, ?_⟩
  rintro ⟨condition, rfl⟩
  exact reachable_plain condition

/-- Sorting the pairs of stored alternatives changes nothing. -/
theorem ofTerms?_pairs {left right : Condition} :
    (ofTerms? (left.plain.pairs right.plain)).map simplified =
      .ok (left.plain.combine right.plain) := by
  have built := congrArg (Except.map Condition.plain)
    (Condition.ofConjunctions?_pairs left right)
  rw [Condition.pairs_plain, ← Condition.plain_ofConjunctions?, ← Condition.plain_combine]
  refine Eq.trans ?_ built
  cases Disjunction.ofConjunctions? (left.conjunctions.flatMap fun first =>
      right.conjunctions.map first.append) with
  | error reason => rfl
  | ok whole => exact congrArg Except.ok Condition.plain_simplified.symm

end PlainCondition

/-- **Conditions stay canonical.** Whatever operations reach is in canonical form, although
combining does not sort: building from all pairs of alternatives succeeds and yields the
combined condition, with plain lists and with the conditions that store them. -/
theorem conditions_stay_canonical {stored other : PlainCondition}
    (reached : stored.Reachable) (otherReached : other.Reachable) :
    stored.Canonical ∧
      (PlainCondition.ofTerms? (stored.pairs other)).map PlainCondition.simplified =
        .ok (stored.combine other) ∧
      ∃ left right : Condition, left.plain = stored ∧ right.plain = other ∧
        (left.combine right).plain = stored.combine other ∧
        ((Disjunction.ofConjunctions? (left.conjunctions.flatMap fun first =>
          right.conjunctions.map first.append)).map fun whole =>
            Condition.simplified (.sum whole)) = .ok (left.combine right) := by
  obtain ⟨left, rfl⟩ := reached.exists_condition
  obtain ⟨right, rfl⟩ := otherReached.exists_condition
  exact ⟨left.canonical_plain, PlainCondition.ofTerms?_pairs, left, right, rfl, rfl,
    Condition.plain_combine, Condition.ofConjunctions?_pairs left right⟩

/-- The alternatives `0` and `1` or `2`, then level one. -/
theorem conditions_stay_canonical_union :
    (PlainCondition.sum 1 [[[0]], [[1, 2]]]).Canonical ∧
      (PlainCondition.ofTerms? [[[0], [1]], [[1, 2], [1]]]).map PlainCondition.simplified =
        .ok (.sum 2 [[[0], [1]], [[1, 2], [1]]]) := by
  have united : PlainCondition.Reachable (.sum 1 [[[0]], [[1, 2]]]) :=
    .union (.ofSets [[2, 1, 2]]) (.ofValues [0]) rfl
  obtain ⟨canonical, built, -⟩ := conditions_stay_canonical united (.ones 1)
  exact ⟨canonical, built⟩

end QuditCircuits
