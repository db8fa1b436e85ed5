import QuditCircuits.Proofs.Amplitude
import QuditCircuits.Proofs.Gate.Sizes
import QuditCircuits.Proofs.Register.EmbeddedProduct

/-!
# Circuits over part of a register

A circuit that has a matrix over some qudits of a register has this matrix at the positions of
these qudits over the whole register, whatever comes before it and after it
(`applyStages_of_part`).
-/

namespace QuditCircuits

open DenseMatrix Register

variable {R : Type} [Scalar R] [ExactScalar R] {register part : List Qudit} {positions : List Nat}
  (storable : Storable amplitudeWidth (Qudit.dimensions register) 1) (distinct : register.Nodup)
  (positionsDistinct : positions.Nodup) (place : PlacedAt register part positions)
  {operations : List (Operation R)} (matched : ∀ operation ∈ operations,
    operation.gate.WellFormed ∧ operation.gate.checkQudits operation.qudits = .ok ())
include storable distinct positionsDistinct place matched

/-- The stages of a circuit over part of a register multiply onto what comes before them over the
whole register. -/
theorem applyStages_lifted {total result before : Unitary R} {later : List (Stage R)}
    (cols : total.cols = (Qudit.dimensions part).prod)
    (applied : applyStages part total (operations.map fun operation =>
      (operation.gate.unitary, operation.qudits)) = .ok (some result)) :
    applyStages register ((lifted total positions (Qudit.dimensions register)).mul before)
        ((operations.map fun operation => (operation.gate.unitary, operation.qudits)) ++ later) =
      applyStages register ((lifted result positions (Qudit.dimensions register)).mul before)
        later := by
  induction operations generalizing total with
  | nil =>
      cases applied
      rfl
  | cons operation operations ih =>
      obtain ⟨⟨wellFormed, fits⟩, others⟩ := List.forall_mem_cons.mp matched
      obtain ⟨entries, inner, embedded, present, found, embeds, sizes, applied⟩ :=
        applyStages_cons_eq_ok_iff.mp applied
      have fills := Gate.fills wellFormed fits
      have innerPlace := placedAt_of_positionsIn found
      have made : placed entries inner (Qudit.dimensions part) = embedded := by
        obtain ⟨entryRows, entryCols, _⟩ := fills entries present
        dsimp only at entryRows entryCols
        rw [innerPlace.dimensions] at entryRows entryCols
        exact ((embed_eq_ok_iff_placed Qudit.pos_of_mem_dimensions innerPlace.inside entryRows
          entryCols).mp embeds).2.2
      have wholeFound : positionsIn register operation.qudits = some (pick positions inner) :=
        (positionsIn_eq_some_iff distinct).mpr (place.trans innerPlace)
      have innerInside : ∀ position ∈ inner, position < positions.length := by
        simpa [Qudit.dimensions, place.length_eq] using innerPlace.inside
      have whole : lifted embedded positions (Qudit.dimensions register) =
          placed entries (pick positions inner) (Qudit.dimensions register) := by
        rw [← made, place.dimensions]
        exact lifted_placed Qudit.pos_of_mem_dimensions positionsDistinct place.inside
          innerInside
      obtain ⟨embeddedRows, embeddedCols⟩ := size_of_embed embeds
      have product : lifted (embedded.mul total) positions (Qudit.dimensions register) =
          (lifted embedded positions (Qudit.dimensions register)).mul
            (lifted total positions (Qudit.dimensions register)) :=
        lifted_mul Qudit.pos_of_mem_dimensions positionsDistinct place.inside
          (embeddedRows.trans (congrArg List.prod place.dimensions))
          (embeddedCols.trans (congrArg List.prod place.dimensions))
          (cols.trans (congrArg List.prod place.dimensions))
      rw [List.map_cons, List.cons_append, present,
        applyStages_cons_of_present storable (present ▸ fills) wholeFound (by rfl), ← whole,
        ← mul_mul_assoc (by rfl), ← product]
      exact ih others cols applied

/-- **A circuit over part of a register** has its matrix at the positions of the part. -/
theorem applyStages_of_part {matrix before : Unitary R} {later : List (Stage R)}
    (rows : before.rows = (Qudit.dimensions register).prod)
    (composed : unitaryOf operations part = .ok (some matrix)) :
    applyStages register before ((operations.map fun operation =>
        (operation.gate.unitary, operation.qudits)) ++ later) =
      applyStages register ((lifted matrix positions (Qudit.dimensions register)).mul before)
        later := by
  rw [unitaryOf, composeStages_eq_applyStages (storable_of_composeStages composed)] at composed
  have start : (lifted (identity (Qudit.dimensions part).prod) positions
      (Qudit.dimensions register)).mul before = before := by
    rw [place.dimensions, lifted_identity Qudit.pos_of_mem_dimensions positionsDistinct
      place.inside, ← rows]
    exact identity_mul
  rw [← applyStages_lifted storable distinct positionsDistinct place matched (by rfl) composed,
    start]

omit storable distinct positionsDistinct place matched in
/-- **A circuit of one operation** over its own qudits has the matrix of the gate. -/
theorem unitaryOf_singleton {operation : Operation R} {matrix : Unitary R}
    (wellFormed : operation.gate.WellFormed)
    (fits : operation.gate.checkQudits operation.qudits = .ok ())
    (distinct : operation.qudits.Nodup)
    (storable : Storable amplitudeWidth (Qudit.dimensions operation.qudits) 1)
    (present : operation.gate.unitary = .ok (some matrix)) :
    unitaryOf [operation] operation.qudits = .ok (some matrix) := by
  have fills := Gate.fills wellFormed fits
  obtain ⟨rows, cols, -⟩ := fills matrix present
  dsimp only at rows cols
  have place : PlacedAt operation.qudits operation.qudits (List.range operation.qudits.length) := by
    have front : PlacedAt (operation.qudits ++ []) operation.qudits
        (List.range operation.qudits.length) := .front
    rwa [List.append_nil] at front
  have found := (positionsIn_eq_some_iff distinct).mpr place
  rw [present] at fills
  have length : operation.qudits.length = (Qudit.dimensions operation.qudits).length :=
    (List.length_map _).symm
  rw [unitaryOf, composeStages_eq_applyStages storable, List.map_singleton, present,
    applyStages_cons_of_present storable fills found (by rfl),
    placed_eq_lifted Qudit.pos_of_mem_dimensions List.nodup_range place.inside, length,
    lifted_range rows cols, ← cols, mul_identity]
  rfl

end QuditCircuits
