import Mathlib.Logic.Relation
import QuditCircuits.Proofs.Gate.Faultless
import QuditCircuits.Proofs.Operation.ControlledParts
import QuditCircuits.Proofs.Register.EmbeddedProduct

/-!
# Circuits as products of operators

Over a register an operation whose gate has a matrix, and whose qudits are there, is an operator
(`Operation.operator?`), and the matrix of a circuit is the product of the operators of its
operations (`unitaryOf_eq_foldlM`). So circuits that follow each other multiply
(`unitaryOf_append`), and operations that share no qudit can be exchanged
(`Exchanged.foldlM_onto_eq`). The qudits of the register need not be different.
-/

namespace QuditCircuits

open DenseMatrix Register

variable {R : Type} [Scalar R]

namespace Operation

/-- A valid operation whose matrix, and those of the circuits inside its gate, can be stored. -/
structure Bounded (operation : Operation R) : Prop extends operation.Valid where
  storable : Storable amplitudeWidth operation.gate.shape 1
  circuits : operation.gate.CircuitsFit

/-- The operator of an operation over a register, if its gate has a matrix and the register has
its qudits. -/
def operator? (register : List Qudit) (operation : Operation R) : Option (Unitary R) :=
  match operation.gate.unitary, positionsIn register operation.qudits with
  | .ok (some matrix), some positions => some (lifted matrix positions (Qudit.dimensions register))
  | _, _ => none

/-- What an operation does to the product of the operators before it. -/
def onto (register : List Qudit) (total : Unitary R) (operation : Operation R) :
    Option (Unitary R) :=
  (operation.operator? register).map (·.mul total)

variable {register : List Qudit} {operation : Operation R} {total : Unitary R}

/-- Within the bounds the matrix of a gate is found, or found absent. -/
theorem Bounded.exists_unitary (bounded : operation.Bounded) :
    ∃ matrix?, operation.gate.unitary = .ok matrix? := by
  have positive : ∀ dimension ∈ operation.gate.shape, 0 < dimension :=
    Gate.checkQudits_eq_ok_iff.mp bounded.fits ▸ Qudit.pos_of_mem_dimensions
  exact Gate.exists_unitary bounded.wellFormed positive bounded.storable bounded.circuits

/-- The matrix of an operation within the bounds fills its qudits. -/
theorem Bounded.fills (bounded : operation.Bounded) :
    Stage.Fills (operation.gate.unitary, operation.qudits) :=
  Gate.fills bounded.wellFormed bounded.fits

/-- The operator of an operation is its matrix, embedded where its qudits are. -/
theorem operator?_eq_some_iff {whole : Unitary R} :
    operation.operator? register = some whole ↔
      ∃ matrix positions, operation.gate.unitary = .ok (some matrix) ∧
        positionsIn register operation.qudits = some positions ∧
        lifted matrix positions (Qudit.dimensions register) = whole := by
  unfold operator?
  split
  case h_1 matrix positions present found => simp [present, found]
  case h_2 absent =>
    refine iff_of_false (Option.some_ne_none _).symm ?_
    rintro ⟨matrix, positions, present, found, -⟩
    exact absent matrix positions present found

/-- An operation has no operator if its gate has no matrix or one of its qudits is outside the
register. -/
theorem Bounded.operator?_eq_none_iff (bounded : operation.Bounded) :
    operation.operator? register = none ↔
      operation.gate.unitary = .ok none ∨ ∃ qudit ∈ operation.qudits, qudit ∉ register := by
  obtain ⟨matrix?, present⟩ := bounded.exists_unitary
  rw [operator?, ← positionsIn_eq_none_iff, present]
  cases matrix? <;> cases positionsIn register operation.qudits <;> simp

/-- An operator has the size of the register. -/
theorem size_of_operator {whole : Unitary R} (present : operation.operator? register = some whole) :
    whole.rows = (Qudit.dimensions register).prod ∧
      whole.cols = (Qudit.dimensions register).prod := by
  obtain ⟨_, _, _, _, rfl⟩ := operator?_eq_some_iff.mp present
  exact ⟨rfl, rfl⟩

theorem rows_of_onto {next : Unitary R} (applied : operation.onto register total = some next) :
    next.rows = (Qudit.dimensions register).prod := by
  obtain ⟨whole, present, rfl⟩ := Option.map_eq_some_iff.mp applied
  exact (size_of_operator present).1

end Operation

variable {register : List Qudit} {operations : List (Operation R)} {total : Unitary R}

/-- A product of operators is missing if one of them is. -/
theorem foldlM_onto_eq_none_iff :
    operations.foldlM (Operation.onto register) total = none ↔
      ∃ operation ∈ operations, operation.operator? register = none := by
  induction operations generalizing total with
  | nil => simp
  | cons operation operations ih =>
      rw [List.foldlM_cons, List.exists_mem_cons_iff, Operation.onto]
      cases operation.operator? register with
      | none => simp
      | some whole => simpa using ih

section Exact

variable [ExactScalar R]

/-- **One operation.** It puts its operator in front of those before it, or ends the circuit
without a matrix. -/
theorem Operation.Bounded.applyStages_cons {operation : Operation R} {stages : List (Stage R)}
    (bounded : operation.Bounded)
    (storable : Storable amplitudeWidth (Qudit.dimensions register) 1)
    (rows : total.rows = (Qudit.dimensions register).prod) :
    applyStages register total ((operation.gate.unitary, operation.qudits) :: stages) =
      (operation.onto register total).elim (.ok none) (applyStages register · stages) := by
  cases operator : operation.operator? register with
  | none =>
      rw [onto, operator]
      obtain ⟨matrix?, present⟩ := bounded.exists_unitary
      have absent := bounded.operator?_eq_none_iff.mp operator
      rw [← positionsIn_eq_none_iff, present] at absent
      rw [present]
      exact applyStages_cons_of_absent (absent.imp_left Except.ok.inj)
  | some whole =>
      rw [onto, operator]
      obtain ⟨matrix, positions, present, found, rfl⟩ := operator?_eq_some_iff.mp operator
      have place := placedAt_of_positionsIn found
      rw [present, applyStages_cons_of_present storable (present ▸ bounded.fills) found rows,
        placed_eq_lifted Qudit.pos_of_mem_dimensions (place.nodup bounded.distinct) place.inside]
      rfl

/-- The stages of a circuit multiply the operators of its operations onto what is before them. -/
theorem applyStages_eq_foldlM (storable : Storable amplitudeWidth (Qudit.dimensions register) 1)
    (bounded : ∀ operation ∈ operations, operation.Bounded)
    (rows : total.rows = (Qudit.dimensions register).prod) :
    applyStages register total (operations.map fun operation =>
      (operation.gate.unitary, operation.qudits)) =
      .ok (operations.foldlM (Operation.onto register) total) := by
  induction operations generalizing total with
  | nil => rfl
  | cons operation operations ih =>
      obtain ⟨here, later⟩ := List.forall_mem_cons.mp bounded
      rw [List.map_cons, here.applyStages_cons storable rows, List.foldlM_cons]
      cases applied : operation.onto register total with
      | none => rfl
      | some next => exact ih later (Operation.rows_of_onto applied)

/-- **The matrix of a circuit** is the product of the operators of its operations. -/
theorem unitaryOf_eq_foldlM (storable : Storable amplitudeWidth (Qudit.dimensions register) 1)
    (bounded : ∀ operation ∈ operations, operation.Bounded) :
    unitaryOf operations register = .ok (operations.foldlM (Operation.onto register)
      (identity (Qudit.dimensions register).prod)) := by
  rw [unitaryOf, composeStages_eq_applyStages storable]
  exact applyStages_eq_foldlM storable bounded (by rfl)

/-! ## Circuits that follow each other -/

/-- What operations do to a product they do to its first factor. -/
theorem foldlM_onto_mul {before : Unitary R}
    (rows : total.rows = (Qudit.dimensions register).prod) :
    operations.foldlM (Operation.onto register) (total.mul before) =
      (operations.foldlM (Operation.onto register) total).map (·.mul before) := by
  induction operations generalizing total with
  | nil => rfl
  | cons operation operations ih =>
      rw [List.foldlM_cons, List.foldlM_cons, Operation.onto, Operation.onto]
      cases operator : operation.operator? register with
      | none => rfl
      | some whole =>
          obtain ⟨wholeRows, wholeCols⟩ := Operation.size_of_operator operator
          have grouped : whole.mul (total.mul before) = (whole.mul total).mul before :=
            (mul_mul_assoc (wholeCols.trans rows.symm)).symm
          have size : (whole.mul total).rows = (Qudit.dimensions register).prod := wholeRows
          change operations.foldlM _ (whole.mul (total.mul before)) = _
          rw [grouped, ih size]
          rfl

/-- **Circuits that follow each other** multiply. -/
theorem unitaryOf_append {first second : List (Operation R)} {before after : Unitary R}
    (storable : Storable amplitudeWidth (Qudit.dimensions register) 1)
    (firstBounded : ∀ operation ∈ first, operation.Bounded)
    (secondBounded : ∀ operation ∈ second, operation.Bounded)
    (firstComposed : unitaryOf first register = .ok (some before))
    (secondComposed : unitaryOf second register = .ok (some after)) :
    unitaryOf (first ++ second) register = .ok (some (after.mul before)) := by
  obtain ⟨rows, -⟩ := size_of_composeStages firstComposed
  rw [unitaryOf_eq_foldlM storable firstBounded] at firstComposed
  rw [unitaryOf_eq_foldlM storable secondBounded] at secondComposed
  have start : (identity (Qudit.dimensions register).prod).mul before = before :=
    rows ▸ identity_mul
  have later : second.foldlM (Operation.onto register) before = some (after.mul before) := by
    rw [← start, foldlM_onto_mul rows_identity, Except.ok.inj secondComposed, start]
    rfl
  rw [unitaryOf_eq_foldlM storable (List.forall_mem_append.mpr ⟨firstBounded, secondBounded⟩),
    List.foldlM_append, Except.ok.inj firstComposed]
  exact congrArg Except.ok later

/-! ## Exchanges -/

/-- Operations that share no qudit do the same in either order. -/
theorem Operation.onto_comm {first second : Operation R} (firstDistinct : first.qudits.Nodup)
    (secondDistinct : second.qudits.Nodup) (apart : List.Disjoint first.qudits second.qudits) :
    (first.onto register total).bind (second.onto register) =
      (second.onto register total).bind (first.onto register) := by
  unfold onto
  cases firstOperator : first.operator? register with
  | none => cases second.operator? register <;> rfl
  | some firstWhole =>
      cases secondOperator : second.operator? register with
      | none => rfl
      | some secondWhole =>
          obtain ⟨_, _, _, firstFound, rfl⟩ := operator?_eq_some_iff.mp firstOperator
          obtain ⟨_, _, _, secondFound, rfl⟩ := operator?_eq_some_iff.mp secondOperator
          have firstPlaced := placedAt_of_positionsIn firstFound
          have secondPlaced := placedAt_of_positionsIn secondFound
          refine congrArg some ?_
          change mul _ (mul _ total) = mul _ (mul _ total)
          rw [← mul_mul_assoc (by rfl), ← mul_mul_assoc (by rfl)]
          exact congrArg (mul · total) (mul_lifted_comm Qudit.pos_of_mem_dimensions
            (secondPlaced.nodup secondDistinct) secondPlaced.inside
            (secondPlaced.disjoint firstPlaced apart.symm) (firstPlaced.nodup firstDistinct)
            firstPlaced.inside)

/-- One circuit comes from another by an exchange of adjacent operations that share no qudit. -/
inductive Exchanged : List (Operation R) → List (Operation R) → Prop
  | swap (front : List (Operation R)) {first second : Operation R}
      (apart : List.Disjoint first.qudits second.qudits) (back : List (Operation R)) :
      Exchanged (front ++ first :: second :: back) (front ++ second :: first :: back)

namespace Exchanged

variable {reordered : List (Operation R)}

omit [Scalar R] [ExactScalar R] in
theorem perm (exchanged : Exchanged operations reordered) : List.Perm operations reordered := by
  obtain ⟨front, _, back⟩ := exchanged
  exact List.Perm.append_left front (List.Perm.swap _ _ back)

/-- **One exchange.** -/
theorem foldlM_onto_eq (exchanged : Exchanged operations reordered)
    (distinct : ∀ operation ∈ operations, operation.qudits.Nodup) :
    operations.foldlM (Operation.onto register) total =
      reordered.foldlM (Operation.onto register) total := by
  cases exchanged with
  | @swap front first second apart back =>
      obtain ⟨firstDistinct, distinct⟩ :=
        List.forall_mem_cons.mp (List.forall_mem_append.mp distinct).2
      obtain ⟨secondDistinct, -⟩ := List.forall_mem_cons.mp distinct
      have two (one other : Operation R) (before : Unitary R) :
          (one :: other :: back).foldlM (Operation.onto register) before =
            ((one.onto register before).bind (other.onto register)).bind
              (back.foldlM (Operation.onto register)) := (Option.bind_assoc _ _ _).symm
      simp only [List.foldlM_append, two, Operation.onto_comm firstDistinct secondDistinct apart]

end Exchanged

/-- **Exchanges** of operations that share no qudit, one after the other, keep the matrix. -/
theorem unitaryOf_eq_of_exchanged {reordered : List (Operation R)}
    (storable : Storable amplitudeWidth (Qudit.dimensions register) 1)
    (bounded : ∀ operation ∈ operations, operation.Bounded)
    (exchanges : Relation.ReflTransGen Exchanged operations reordered) :
    unitaryOf operations register = unitaryOf reordered register := by
  induction exchanges using Relation.ReflTransGen.head_induction_on with
  | refl => rfl
  | head exchanged _ ih =>
      have still := fun operation member =>
        bounded operation (exchanged.perm.mem_iff.mpr member)
      rw [← ih still, unitaryOf_eq_foldlM storable bounded, unitaryOf_eq_foldlM storable still]
      exact congrArg Except.ok
        (exchanged.foldlM_onto_eq fun operation member => (bounded operation member).distinct)

/-- **Circuits multiply and can be reordered.** Over a register that can be stored, a circuit of
valid operations whose matrices can be stored does not fault. It has no matrix if an operation
has none or leaves the register, and the empty circuit has the identity. Circuits that follow
each other have the product of their matrices, which fit each other. Exchanges of adjacent
operations that share no qudit keep the matrix, however many there are. -/
theorem circuits_multiply_and_reorder {register : List Qudit}
    (storable : Storable amplitudeWidth (Qudit.dimensions register) 1) :
    (∀ operations : List (Operation R), (∀ operation ∈ operations, operation.Bounded) →
      (∃ matrix?, unitaryOf operations register = .ok matrix?) ∧
        (unitaryOf operations register = .ok none ↔
          ∃ operation ∈ operations, operation.gate.unitary = .ok none ∨
            ∃ qudit ∈ operation.qudits, qudit ∉ register)) ∧
    unitaryOf ([] : List (Operation R)) register =
      .ok (some (identity (Qudit.dimensions register).prod)) ∧
    (∀ (first second : List (Operation R)) (before after : Unitary R),
      (∀ operation ∈ first ++ second, operation.Bounded) →
      unitaryOf first register = .ok (some before) →
      unitaryOf second register = .ok (some after) →
      ∃ product, after.mul? before = .ok product ∧
        unitaryOf (first ++ second) register = .ok (some product)) ∧
    ∀ operations reordered : List (Operation R), (∀ operation ∈ operations, operation.Bounded) →
      Relation.ReflTransGen Exchanged operations reordered →
      unitaryOf operations register = unitaryOf reordered register := by
  refine ⟨?_, ?_, ?_, ?_⟩
  · intro operations bounded
    rw [unitaryOf_eq_foldlM storable bounded]
    refine ⟨⟨_, rfl⟩, ?_⟩
    rw [Except.ok.injEq, foldlM_onto_eq_none_iff]
    exact exists_congr fun operation => and_congr_right fun member =>
      (bounded operation member).operator?_eq_none_iff
  · exact unitaryOf_eq_foldlM storable (List.forall_mem_nil _)
  · intro first second before after bounded firstComposed secondComposed
    obtain ⟨firstBounded, secondBounded⟩ := List.forall_mem_append.mp bounded
    have sizes : after.cols = before.rows := (size_of_composeStages secondComposed).2.trans
      (size_of_composeStages firstComposed).1.symm
    exact ⟨_, if_pos sizes, unitaryOf_append storable firstBounded secondBounded firstComposed
      secondComposed⟩
  · exact fun operations reordered => unitaryOf_eq_of_exchanged storable

end Exact

/-- An exchange under a qutrit at one of the levels zero and two, and a flip of another qubit, in
both orders, and a flip of a qubit that is not in the register. -/
theorem circuits_multiply_and_reorder_flips :
    let qutrit : Qudit := ⟨0, 3, by decide⟩
    let register : List Qudit := [qutrit, .qubit 1, .qubit 2]
    let outside : Condition := .product (.ofSpecs [.set [0, 2]])
    let guarded : Operation ℝ := ⟨.controlled .x outside [3], [qutrit, .qubit 2]⟩
    let flip : Operation ℝ := ⟨.x, [.qubit 1]⟩
    let stray : Operation ℝ := ⟨.x, [.qubit 3]⟩
    (∃ before after product, unitaryOf [guarded] register = .ok (some before) ∧
      unitaryOf [flip] register = .ok (some after) ∧ after.mul? before = .ok product ∧
      unitaryOf [guarded, flip] register = .ok (some product) ∧
      unitaryOf [flip, guarded] register = .ok (some product)) ∧
    unitaryOf [guarded, stray] register = .ok none := by
  intro qutrit register outside guarded flip stray
  have storable : Storable amplitudeWidth (Qudit.dimensions register) 1 :=
    ⟨by decide, by decide, by decide⟩
  have guardedBounded : guarded.Bounded :=
    ⟨⟨⟨trivial, rfl, rfl, by decide, rfl, rfl⟩, rfl, by decide⟩,
      ⟨by decide, by decide, by decide⟩, trivial⟩
  have flipBounded : flip.Bounded :=
    ⟨⟨trivial, rfl, by decide⟩, ⟨by decide, by decide, by decide⟩, trivial⟩
  have strayBounded : stray.Bounded :=
    ⟨⟨trivial, rfl, by decide⟩, ⟨by decide, by decide, by decide⟩, trivial⟩
  obtain ⟨exists_matrix, -, multiply, reorder⟩ :=
    circuits_multiply_and_reorder (R := ℝ) storable
  have single (operation : Operation ℝ) (bounded : operation.Bounded)
      (present : ∃ matrix, operation.gate.unitary = .ok (some matrix))
      (inside : operation.qudits ⊆ register) :
      ∃ matrix, unitaryOf [operation] register = .ok (some matrix) := by
    obtain ⟨⟨matrix?, composed⟩, absent⟩ :=
      exists_matrix [operation] (List.forall_mem_singleton.mpr bounded)
    obtain ⟨matrix, present⟩ := present
    cases matrix? with
    | some matrix => exact ⟨matrix, composed⟩
    | none =>
        obtain ⟨_, member, missing | ⟨qudit, listed, outside⟩⟩ := absent.mp composed
        · cases List.mem_singleton.mp member
          cases present.symm.trans missing
        · cases List.mem_singleton.mp member
          exact absurd (inside listed) outside
  have embedded : controlledEmbedding amplitudeWidth [3] outside (Unitary.flip : Unitary ℝ) =
      .ok _ := controlledEmbedding_eq_ok (by decide) rfl (by rfl) ⟨by decide, by decide, by decide⟩
  have guardedPresent : ∃ matrix, guarded.gate.unitary = .ok (some matrix) :=
    ⟨_, (Gate.unitary_controlled (by decide)).trans (congrArg (some <$> ·) embedded)⟩
  obtain ⟨before, guardedComposed⟩ := single guarded guardedBounded guardedPresent (by decide)
  obtain ⟨after, flipComposed⟩ := single flip flipBounded ⟨_, rfl⟩ (by decide)
  have both : ∀ operation ∈ [guarded, flip], operation.Bounded := by
    simp [guardedBounded, flipBounded]
  obtain ⟨product, fits, composed⟩ :=
    multiply [guarded] [flip] before after both guardedComposed flipComposed
  have apart : ∀ qudit ∈ guarded.qudits, qudit ∉ flip.qudits := by decide
  have exchanged : Exchanged [guarded, flip] [flip, guarded] := .swap [] apart []
  have reversed := reorder [guarded, flip] [flip, guarded] both (.single exchanged)
  refine ⟨⟨before, after, product, guardedComposed, flipComposed, fits, composed,
    reversed.symm.trans composed⟩, ?_⟩
  refine ((exists_matrix [guarded, stray] ?_).2).mpr ⟨stray, by simp, .inr ⟨.qubit 3, ?_⟩⟩
  · simp [guardedBounded, strayBounded]
  · decide

end QuditCircuits
