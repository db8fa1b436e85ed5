import QuditCircuits.Proofs.Condition.Validity

/-!
# Equality of stored conditions

Sets of levels and sums of conjunctions are stored in ascending order, so two of them are equal
if they have the same members, however they were written down. A conjunction keeps one set per
qudit and is told apart by what it accepts: a level of one of its sets occurs in an accepted
assignment, and the levels at that qudit in accepted assignments are the set. This needs that
every qudit accepts some level, since otherwise nothing is accepted, whatever the other sets
are.
-/

namespace QuditCircuits

namespace LevelSpec

/-- Whether a level is among those that are described. -/
def Describes : LevelSpec → Nat → Prop
  | .value only, level => level = only
  | .set levels, level => level ∈ levels

theorem mem_levels {spec : LevelSpec} {level : Nat} :
    level ∈ spec.levels.toList ↔ spec.Describes level := by
  cases spec with
  | value only => exact List.mem_singleton
  | set levels => exact Ascending.mem_ofList

/-- Descriptions have the same set if they describe the same levels. -/
theorem levels_eq_iff {spec other : LevelSpec} :
    spec.levels = other.levels ↔ ∀ level, spec.Describes level ↔ other.Describes level := by
  simp only [← mem_levels]
  exact ⟨fun same level => by rw [same], Ascending.ext_mem⟩

end LevelSpec

namespace Conjunction

variable {left right conjunction : Conjunction}

/-- Descriptions are stored alike if they describe the same levels of each qudit. -/
theorem ofSpecs_eq_iff {specs others : List LevelSpec} :
    ofSpecs specs = ofSpecs others ↔ List.Forall₂
      (fun spec other => ∀ level, spec.Describes level ↔ other.Describes level) specs others := by
  have maps : specs.map LevelSpec.levels = others.map LevelSpec.levels ↔
      List.Forall₂ (fun spec other => spec.levels = other.levels) specs others := by
    rw [← List.forall₂_eq_eq_eq, List.forall₂_map_left_iff, List.forall₂_map_right_iff]
  simp only [← LevelSpec.levels_eq_iff, ← maps]
  exact ⟨congrArg sets, ext⟩

/-! ## Sets from accepted assignments -/

/-- Accepted levels lie in the sets of their qudits. -/
theorem mem_of_acceptsWithin {sets : List (Ascending Nat)} {assignment : List Nat}
    (accepted : acceptsWithin sets assignment = true) {qudit level : Nat} {set : Ascending Nat}
    (found : sets[qudit]? = some set) (taken : assignment[qudit]? = some level) :
    level ∈ set.toList := by
  induction sets generalizing qudit assignment with
  | nil => cases found
  | cons first sets ih =>
      cases assignment with
      | nil => cases taken
      | cons head assignment =>
          simp only [acceptsWithin, Bool.and_eq_true, List.contains_iff_mem] at accepted
          cases qudit with
          | zero =>
              cases found
              cases taken
              exact accepted.1
          | succ qudit => exact ih accepted.2 found taken

/-- Where every qudit accepts some level, a stricter conjunction has smaller sets. -/
theorem Occupied.mem_of_accepts_imp (occupied : left.Occupied)
    (stricter : ∀ assignment, left.accepts assignment = true → right.accepts assignment = true)
    {qudit level : Nat} {leftSet rightSet : Ascending Nat}
    (leftFound : left.sets[qudit]? = some leftSet)
    (rightFound : right.sets[qudit]? = some rightSet) (member : level ∈ leftSet.toList) :
    level ∈ rightSet.toList := by
  obtain ⟨assignment, accepted, taken⟩ := occupied.exists_accepts leftFound member
  exact mem_of_acceptsWithin (stricter assignment accepted) rightFound taken

/-- **Extensionality.** Conjunctions in which every qudit accepts some level are equal if they
accept the same assignments. -/
theorem Occupied.eq_of_accepts (leftOccupied : left.Occupied) (rightOccupied : right.Occupied)
    (same : ∀ assignment, left.accepts assignment = right.accepts assignment) : left = right := by
  have width : left.sets.length = right.sets.length := by
    obtain ⟨assignment, accepted⟩ : ∃ assignment, left.accepts assignment = true :=
      exists_acceptsWithin leftOccupied
    exact (length_of_accepts accepted).symm.trans
      (length_of_accepts ((same assignment).symm.trans accepted))
  refine ext (List.ext_getElem width fun qudit insideLeft insideRight => ?_)
  have leftFound := List.getElem?_eq_getElem insideLeft
  have rightFound := List.getElem?_eq_getElem insideRight
  refine Ascending.ext_mem fun level => ⟨?_, ?_⟩
  · exact leftOccupied.mem_of_accepts_imp (fun _ accepted => same _ ▸ accepted)
      leftFound rightFound
  · exact rightOccupied.mem_of_accepts_imp (fun _ accepted => same _ ▸ accepted)
      rightFound leftFound

/-- A control that accepts no level is never satisfied. -/
theorem acceptsWithin_of_empty {sets : List (Ascending Nat)}
    (unsatisfiable : ∃ set ∈ sets, set.toList = []) (levels : List Nat) :
    acceptsWithin sets levels = false := by
  induction sets generalizing levels with
  | nil => simp at unsatisfiable
  | cons set sets ih =>
      cases levels with
      | nil => rfl
      | cons level levels =>
          rw [acceptsWithin]
          rcases (List.exists_mem_cons_iff _ _ _).mp unsatisfiable with empty | later
          · simp [empty]
          · rw [ih later, Bool.and_false]

theorem accepts_ones_iff {levels : List Nat} :
    (ones levels.length).accepts levels = true ↔ ∀ level ∈ levels, level = 1 := by
  change acceptsWithin (List.replicate levels.length one) levels = true ↔ _
  induction levels with
  | nil => exact iff_of_true rfl (List.forall_mem_nil _)
  | cons level levels ih =>
      rw [List.length_cons, List.replicate_succ, acceptsWithin, Bool.and_eq_true, ih,
        List.forall_mem_cons]
      simp [one, Ascending.singleton]

/-- What is accepted somewhere has a level for every qudit. -/
theorem occupied_of_accepts {assignment : List Nat}
    (accepted : conjunction.accepts assignment = true) : conjunction.Occupied := by
  intro set inside empty
  exact Bool.false_ne_true
    ((acceptsWithin_of_empty ⟨set, inside, empty⟩ assignment).symm.trans accepted)

/-- A conjunction of ones accepts level one everywhere. -/
theorem accepts_ones {count : Nat} {assignment : List Nat} :
    (ones count).accepts assignment = true ↔ assignment = List.replicate count 1 := by
  rw [List.eq_replicate_iff]
  constructor
  · intro accepted
    obtain rfl : assignment.length = count := (length_of_accepts accepted).trans width_ones
    exact ⟨rfl, accepts_ones_iff.mp accepted⟩
  · rintro ⟨rfl, all⟩
    exact accepts_ones_iff.mpr all

/-- A conjunction is trivial if it is the conjunction of ones. -/
theorem isTrivial_iff : conjunction.isTrivial = true ↔ conjunction = ones conjunction.width := by
  have same : conjunction = ones conjunction.width ↔
      conjunction.sets = List.replicate conjunction.width one :=
    ⟨congrArg sets, ext⟩
  rw [same, List.eq_replicate_iff]
  simp [isTrivial, width]

/-- A conjunction is trivial if level one everywhere is all that it accepts. -/
theorem isTrivial_iff_accepts : conjunction.isTrivial = true ↔ ∀ assignment,
    (conjunction.accepts assignment = true ↔
      assignment = List.replicate conjunction.width 1) := by
  rw [isTrivial_iff]
  constructor
  · intro trivial assignment
    rw [← accepts_ones, ← trivial]
  · intro exact
    have ones (assignment : List Nat) :
        conjunction.accepts assignment = (ones conjunction.width).accepts assignment := by
      rw [Bool.eq_iff_iff, accepts_ones, exact]
    have accepted := (exact _).mpr rfl
    exact (occupied_of_accepts accepted).eq_of_accepts
      (occupied_of_accepts (accepts_ones.mpr rfl)) ones

end Conjunction

namespace Disjunction

/-- The positions of conjunctions of another width. -/
def mismatches (width : Nat) (terms : List Conjunction) : Set Nat :=
  {position | ∃ term, terms[position]? = some term ∧ term.width ≠ width}

/-- The search for another width finds the first position where it is. -/
theorem isLeast_of_mismatchFrom {width start index other : Nat} {terms : List Conjunction}
    (found : mismatchFrom width start terms = some (index, other)) :
    ∃ position term, IsLeast (mismatches width terms) position ∧
      terms[position]? = some term ∧ index = start + position ∧ other = term.width := by
  induction terms generalizing start with
  | nil => cases found
  | cons term terms ih =>
      unfold mismatchFrom at found
      split at found
      case isTrue same =>
        obtain ⟨position, wrong, least, inside, rfl, rfl⟩ := ih found
        refine ⟨position + 1, wrong, ⟨least.1, ?_⟩, inside, ?_, rfl⟩
        · rintro (_ | other) ⟨mismatched, taken, different⟩
          · cases taken
            exact absurd same different
          · exact Nat.succ_le_succ (least.2 ⟨mismatched, taken, different⟩)
        · omega
      case isFalse different =>
        cases found
        exact ⟨0, term, ⟨⟨term, rfl, different⟩, fun _ _ => Nat.zero_le _⟩, rfl, rfl, rfl⟩

/-- What a list of conjunctions is built to has its members and their width. -/
theorem of_ofConjunctions {terms : List Conjunction} {whole : Disjunction}
    (built : ofConjunctions? terms = .ok whole) :
    terms ≠ [] ∧ (∀ term ∈ terms, term.width = whole.width) ∧
      ∀ term, term ∈ whole.terms.toList ↔ term ∈ terms := by
  cases terms with
  | nil => cases built
  | cons first rest =>
      rw [ofConjunctions?] at built
      split at built
      case h_1 => cases built
      case h_2 agree =>
        cases built
        exact ⟨List.cons_ne_nil _ _, width_eq_of_mismatchFrom agree,
          fun term => Ascending.mem_ofList⟩

/-- Lists of conjunctions are built to the same sum if they have the same members. -/
theorem ofConjunctions_eq_iff {terms others : List Conjunction} {whole other : Disjunction}
    (built : ofConjunctions? terms = .ok whole) (otherBuilt : ofConjunctions? others = .ok other) :
    whole = other ↔ ∀ term, term ∈ terms ↔ term ∈ others := by
  obtain ⟨occupied, uniform, members⟩ := of_ofConjunctions built
  obtain ⟨-, otherUniform, otherMembers⟩ := of_ofConjunctions otherBuilt
  constructor
  · rintro rfl term
    exact (members term).symm.trans (otherMembers term)
  · intro same
    obtain ⟨term, inside⟩ := List.exists_mem_of_ne_nil _ occupied
    apply ext
    · exact (uniform term inside).symm.trans (otherUniform term ((same term).mp inside))
    · apply Ascending.ext_mem
      intro term
      rw [members, otherMembers, same]

/-- A list of conjunctions is refused if it is empty, or for the first of another width than
the head. -/
theorem ofConjunctions_eq_error_iff {terms : List Conjunction} {reason : ConditionError} :
    ofConjunctions? terms = .error reason ↔
      terms = [] ∧ reason = .emptyDisjunction ∨
        ∃ first position term, terms.head? = some first ∧
          IsLeast (mismatches first.width terms) position ∧ terms[position]? = some term ∧
          reason = .conjunctionLength position first.width term.width := by
  cases terms with
  | nil => simp [ofConjunctions?, eq_comm]
  | cons first rest =>
      rw [ofConjunctions?]
      split
      case h_1 index width found =>
        obtain ⟨position, term, least, inside, rfl, rfl⟩ := isLeast_of_mismatchFrom found
        rw [Nat.zero_add]
        constructor
        · intro refused
          cases refused
          exact .inr ⟨first, position, term, rfl, least, inside, rfl⟩
        · rintro (⟨⟨⟩, -⟩ | ⟨_, other, otherTerm, ⟨⟩, otherLeast, otherInside, rfl⟩)
          cases least.unique otherLeast
          cases inside.symm.trans otherInside
          rfl
      case h_2 agree =>
        refine iff_of_false (fun refused => by cases refused) ?_
        rintro (⟨⟨⟩, -⟩ | ⟨_, position, _, ⟨⟩, ⟨⟨term, inside, different⟩, -⟩, -, -⟩)
        exact different (width_eq_of_mismatchFrom agree term (List.mem_of_getElem? inside))

/-- A list of conjunctions is built if it is not empty and they have one width. -/
theorem exists_ofConjunctions_iff {terms : List Conjunction} :
    (∃ whole, ofConjunctions? terms = .ok whole) ↔
      terms ≠ [] ∧ ∀ term ∈ terms, ∀ other ∈ terms, term.width = other.width := by
  constructor
  · rintro ⟨whole, built⟩
    obtain ⟨occupied, uniform, -⟩ := of_ofConjunctions built
    exact ⟨occupied, fun term inside other otherInside =>
      (uniform term inside).trans (uniform other otherInside).symm⟩
  · rintro ⟨occupied, uniform⟩
    obtain ⟨first, inside⟩ := List.exists_mem_of_ne_nil _ occupied
    obtain ⟨whole, built, -⟩ := Condition.exists_ofConjunctions occupied
      fun term member => uniform term member first inside
    exact ⟨whole, built⟩

end Disjunction

/-- **Stored forms are canonical.** Descriptions of sets are stored as one conjunction if there
are as many and they describe the same levels at each position. Conjunctions in which every
qudit accepts some level are equal if they accept the same assignments; in particular the
trivial one is told by accepting level one everywhere and nothing else. Lists of conjunctions
that are built are built to the same sum if they contain the same conjunctions. A list is built
if it is not empty and all its conjunctions are on the same number of qudits, and is refused
otherwise, naming the first conjunction that is not on as many as the head of the list. -/
theorem equality_of_stored_forms :
    (∀ specs others : List LevelSpec,
      Conjunction.ofSpecs specs = Conjunction.ofSpecs others ↔
        List.Forall₂ (fun spec other => ∀ level, spec.Describes level ↔ other.Describes level)
          specs others) ∧
    (∀ left right : Conjunction, left.Occupied → right.Occupied →
      (left = right ↔ ∀ assignment, left.accepts assignment = right.accepts assignment)) ∧
    (∀ conjunction : Conjunction, (Condition.product conjunction).isTrivial = true ↔
      ∀ assignment, ((Condition.product conjunction).accepts assignment = true ↔
        assignment = List.replicate conjunction.width 1)) ∧
    (∀ (terms others : List Conjunction) (whole other : Disjunction),
      Disjunction.ofConjunctions? terms = .ok whole →
        Disjunction.ofConjunctions? others = .ok other →
          (whole = other ↔ ∀ term, term ∈ terms ↔ term ∈ others)) ∧
    ∀ terms : List Conjunction,
      ((∃ whole, Disjunction.ofConjunctions? terms = .ok whole) ↔
        terms ≠ [] ∧ ∀ term ∈ terms, ∀ other ∈ terms, term.width = other.width) ∧
      ∀ reason, Disjunction.ofConjunctions? terms = .error reason ↔
        terms = [] ∧ reason = .emptyDisjunction ∨
          ∃ first position term, terms.head? = some first ∧
            IsLeast (Disjunction.mismatches first.width terms) position ∧
            terms[position]? = some term ∧
            reason = .conjunctionLength position first.width term.width := by
  refine ⟨?_, ?_, ?_, ?_, fun terms => ⟨?_, fun reason => ?_⟩⟩
  · intro specs others
    exact Conjunction.ofSpecs_eq_iff
  · intro left right leftOccupied rightOccupied
    exact ⟨fun same assignment => by rw [same], leftOccupied.eq_of_accepts rightOccupied⟩
  · intro conjunction
    exact Conjunction.isTrivial_iff_accepts
  · intro terms others whole other built otherBuilt
    exact Disjunction.ofConjunctions_eq_iff built otherBuilt
  · exact Disjunction.exists_ofConjunctions_iff
  · exact Disjunction.ofConjunctions_eq_error_iff

/-- Two ways to write the levels zero and two of one qudit and the level one of another, and the
sum of two assignments in both orders. -/
theorem equality_of_stored_forms_orders :
    let written : List LevelSpec := [.set [2, 0, 2], .value 1]
    let sorted : List LevelSpec := [.set [0, 2], .set [1, 1]]
    let first : Conjunction := .ofValues [0, 1]
    let second : Conjunction := .ofValues [1, 0]
    Conjunction.ofSpecs written = Conjunction.ofSpecs sorted ∧
      (∀ assignment, (Conjunction.ofSpecs written).accepts assignment =
        (Conjunction.ofSpecs sorted).accepts assignment) ∧
      ∃ whole other, Disjunction.ofConjunctions? [first, second, first] = .ok whole ∧
        Disjunction.ofConjunctions? [second, first] = .ok other ∧ whole = other := by
  intro written sorted first second
  obtain ⟨specs, accepts, -, sums, -⟩ := equality_of_stored_forms
  have same : Conjunction.ofSpecs written = Conjunction.ofSpecs sorted := by
    refine (specs written sorted).mpr (.cons (fun level => ?_) (.cons (fun level => ?_) .nil))
    · simp only [LevelSpec.Describes, List.mem_cons, List.not_mem_nil]
      tauto
    · simp [LevelSpec.Describes]
  refine ⟨same, (accepts _ _ (by decide) (by decide)).mp same, _, _, rfl, rfl, ?_⟩
  refine (sums [first, second, first] [second, first] _ _ rfl rfl).mpr fun term => ?_
  simp only [List.mem_cons, List.not_mem_nil]
  tauto

/-- The second conjunction of a list is on another number of qudits than the first. -/
example :
    Disjunction.ofConjunctions? [.ones 2, .ones 1, .ones 3] = .error (.conjunctionLength 1 2 1) :=
  rfl

end QuditCircuits
