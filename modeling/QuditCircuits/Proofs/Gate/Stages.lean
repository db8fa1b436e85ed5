import QuditCircuits.Proofs.Register.Positions

/-!
# Stages of a circuit

A circuit multiplies up the matrices of its stages, each embedded at the positions of its
qudits. It starts from the identity of the register, if that can be stored
(`composeStages_eq_applyStages`), and ends with a matrix of the size of the register
(`size_of_composeStages`). Where the matrices have the sizes of their qudits, a register that
can be stored has no faults of its own: a circuit faults only where the matrix of a stage does
(`fault_of_applyStages`).
-/

namespace QuditCircuits

open DenseMatrix Register

/-- Every qudit has a level. -/
theorem Qudit.pos_of_mem_dimensions {qudits : List Qudit} :
    ∀ dimension ∈ Qudit.dimensions qudits, 0 < dimension := by
  intro dimension member
  obtain ⟨qudit, _, rfl⟩ := List.mem_map.mp member
  exact qudit.dimension_pos

theorem Qudit.dimensions_append {front back : List Qudit} :
    dimensions (front ++ back) = dimensions front ++ dimensions back :=
  List.map_append

theorem Register.size_of_embed {width : Nat} {α : Type} [Zero α] [Add α]
    {matrix result : DenseMatrix α} {positions shape : List Nat}
    (embedded : embed width matrix positions shape = .ok result) :
    result.rows = shape.prod ∧ result.cols = shape.prod := by
  simp only [embed, bind_eq_ok_iff] at embedded
  obtain ⟨total, counted, _, _, _, _, _, _, _, _, built⟩ := embedded
  cases built
  obtain ⟨rfl, _⟩ := Machine.eq_of_product_eq_ok counted
  exact ⟨rfl, rfl⟩

variable {R : Type} [Scalar R]

/-- A stage takes part if it has a matrix and its qudits are in the register. -/
theorem applyStages_cons_eq_ok_iff {register qudits : List Qudit} {total result : Unitary R}
    {matrix : Except Fault (Option (Unitary R))} {stages : List (Stage R)} :
    applyStages register total ((matrix, qudits) :: stages) = .ok (some result) ↔
      ∃ entries positions embedded, matrix = .ok (some entries) ∧
        positionsIn register qudits = some positions ∧
        embed amplitudeWidth entries positions (Qudit.dimensions register) = .ok embedded ∧
        embedded.cols = total.rows ∧
        applyStages register (embedded.mul total) stages = .ok (some result) := by
  have meets {embedded next : Unitary R} :
      embedded.mul? total = .ok next ↔ embedded.cols = total.rows ∧ embedded.mul total = next := by
    unfold mul?
    split <;> simp [*]
  constructor
  · intro applied
    obtain ⟨matrix?, present, applied⟩ := bind_eq_ok_iff.mp applied
    split at applied
    case h_1 entries positions placed =>
      obtain ⟨embedded, embeds, applied⟩ := bind_eq_ok_iff.mp applied
      obtain ⟨_, multiplied, applied⟩ := bind_eq_ok_iff.mp applied
      obtain ⟨sizes, rfl⟩ := meets.mp multiplied
      exact ⟨entries, positions, embedded, present, placed, embeds, sizes, applied⟩
    case h_2 => cases applied
  · rintro ⟨entries, positions, embedded, rfl, placed, embeds, sizes, applied⟩
    rw [applyStages, placed]
    change (embed amplitudeWidth entries positions (Qudit.dimensions register) >>= _) = _
    rw [embeds]
    change (embedded.mul? total >>= _) = _
    rw [meets.mpr ⟨sizes, rfl⟩]
    exact applied

/-- Stages keep the size of the register. -/
theorem size_of_applyStages {register : List Qudit} {total result : Unitary R}
    {stages : List (Stage R)} (rows : total.rows = (Qudit.dimensions register).prod)
    (cols : total.cols = (Qudit.dimensions register).prod)
    (applied : applyStages register total stages = .ok (some result)) :
    result.rows = (Qudit.dimensions register).prod ∧
      result.cols = (Qudit.dimensions register).prod := by
  induction stages generalizing total with
  | nil =>
      cases applied
      exact ⟨rows, cols⟩
  | cons stage stages ih =>
      obtain ⟨_, _, embedded, _, _, embeds, _, applied⟩ := applyStages_cons_eq_ok_iff.mp applied
      refine ih ?_ ?_ applied
      · exact (size_of_embed embeds).1
      · exact cols

/-- A composed matrix has the size of the register. -/
theorem size_of_composeStages {register : List Qudit} {result : Unitary R}
    {stages : List (Stage R)} (composed : composeStages register stages = .ok (some result)) :
    result.rows = (Qudit.dimensions register).prod ∧
      result.cols = (Qudit.dimensions register).prod := by
  obtain ⟨size, counted, composed⟩ := bind_eq_ok_iff.mp composed
  obtain ⟨start, stored, applied⟩ := bind_eq_ok_iff.mp composed
  obtain ⟨_, _, built⟩ := bind_eq_ok_iff.mp stored
  cases built
  obtain ⟨rfl, _⟩ := Machine.eq_of_product_eq_ok counted
  exact size_of_applyStages (by rfl) (by rfl) applied

/-- Stages that are applied all have a matrix. -/
theorem exists_unitary_of_applyStages {register : List Qudit} {total result : Unitary R}
    {stages : List (Stage R)} (applied : applyStages register total stages = .ok (some result)) :
    ∀ stage ∈ stages, ∃ entries, stage.1 = .ok (some entries) := by
  induction stages generalizing total with
  | nil => exact List.forall_mem_nil _
  | cons stage stages ih =>
      obtain ⟨entries, _, _, present, _, _, _, applied⟩ := applyStages_cons_eq_ok_iff.mp applied
      exact List.forall_mem_cons.mpr ⟨⟨entries, present⟩, ih applied⟩

/-- A circuit that has a matrix has one for each of its stages. -/
theorem exists_unitary_of_composeStages {register : List Qudit} {result : Unitary R}
    {stages : List (Stage R)} (composed : composeStages register stages = .ok (some result)) :
    ∀ stage ∈ stages, ∃ entries, stage.1 = .ok (some entries) := by
  obtain ⟨_, _, composed⟩ := bind_eq_ok_iff.mp composed
  obtain ⟨_, _, applied⟩ := bind_eq_ok_iff.mp composed
  exact exists_unitary_of_applyStages applied

/-! ## Stages of the size of their qudits -/

/-- The matrix of a stage, if it has one, is square of the dimension of its qudits, which can be
counted. -/
def Stage.Fills (stage : Stage R) : Prop :=
  ∀ matrix, stage.1 = .ok (some matrix) →
    matrix.rows = (Qudit.dimensions stage.2).prod ∧ matrix.cols = (Qudit.dimensions stage.2).prod ∧
      (Qudit.dimensions stage.2).prod < Machine.wordRange

section Fills

variable {register qudits : List Qudit} {total matrix : Unitary R} {stages : List (Stage R)}

/-- A stage that fills its qudits is embedded without a fault. -/
theorem Stage.embed_eq_ok {positions : List Nat}
    (storable : Storable amplitudeWidth (Qudit.dimensions register) 1)
    (fills : Stage.Fills (.ok (some matrix), qudits))
    (found : positionsIn register qudits = some positions) :
    embed amplitudeWidth matrix positions (Qudit.dimensions register) =
      .ok (placed matrix positions (Qudit.dimensions register)) := by
  have place := placedAt_of_positionsIn found
  obtain ⟨rows, cols, fits⟩ := fills matrix rfl
  dsimp only at rows cols fits
  rw [place.dimensions] at rows cols fits
  exact (embed_eq_ok_iff_placed Qudit.pos_of_mem_dimensions place.inside rows cols).mpr
    ⟨storable, fits, rfl⟩

/-- Without a matrix, or without a place for its qudits, a stage ends the composition. -/
theorem applyStages_cons_of_absent {matrix? : Option (Unitary R)}
    (absent : matrix? = none ∨ positionsIn register qudits = none) :
    applyStages register total ((.ok matrix?, qudits) :: stages) = .ok none := by
  rcases absent with rfl | outside
  · rfl
  · cases matrix? with
    | none => rfl
    | some matrix =>
        rw [applyStages, outside]
        rfl

/-- A stage with a matrix and its qudits in the register puts its operator in front. -/
theorem applyStages_cons_of_present {positions : List Nat}
    (storable : Storable amplitudeWidth (Qudit.dimensions register) 1)
    (fills : Stage.Fills (.ok (some matrix), qudits))
    (found : positionsIn register qudits = some positions)
    (rows : total.rows = (Qudit.dimensions register).prod) :
    applyStages register total ((.ok (some matrix), qudits) :: stages) =
      applyStages register ((placed matrix positions (Qudit.dimensions register)).mul total)
        stages := by
  have multiplied : (placed matrix positions (Qudit.dimensions register)).mul? total =
      .ok ((placed matrix positions (Qudit.dimensions register)).mul total) :=
    if_pos rows.symm
  simp only [applyStages, found, Stage.embed_eq_ok storable fills found, multiplied, bind,
    Except.bind]

/-- **Faults of a circuit.** Over a register that can be stored they are those of the matrices of
its stages. -/
theorem fault_of_applyStages {fault : Fault}
    (storable : Storable amplitudeWidth (Qudit.dimensions register) 1)
    (fills : ∀ stage ∈ stages, Stage.Fills stage)
    (rows : total.rows = (Qudit.dimensions register).prod)
    (faults : applyStages register total stages = .error fault) :
    ∃ stage ∈ stages, stage.1 = .error fault := by
  induction stages generalizing total with
  | nil => cases faults
  | cons stage stages ih =>
      obtain ⟨here, later⟩ := List.forall_mem_cons.mp fills
      rcases stage with ⟨_ | matrix?, qudits⟩
      · cases faults
        exact ⟨_, List.mem_cons_self, rfl⟩
      · cases matrix? with
        | none => cases faults
        | some matrix =>
            cases found : positionsIn register qudits with
            | none =>
                rw [applyStages_cons_of_absent (.inr found)] at faults
                cases faults
            | some positions =>
                rw [applyStages_cons_of_present storable here found rows] at faults
                obtain ⟨stage, member, same⟩ := ih later rfl faults
                exact ⟨stage, List.mem_cons_of_mem _ member, same⟩

end Fills

/-! ## The start of a circuit -/

/-- A register whose matrices can be stored starts from the identity. -/
theorem composeStages_eq_applyStages {register : List Qudit} {stages : List (Stage R)}
    (storable : Storable amplitudeWidth (Qudit.dimensions register) 1) :
    composeStages register stages =
      applyStages register (identity (Qudit.dimensions register).prod) stages := by
  obtain ⟨blocks, _, entries⟩ := storable
  rw [Nat.mul_one] at entries
  have stored : (identity? (Qudit.dimensions register).prod amplitudeWidth :
      Except Fault (Unitary R)) = .ok (identity (Qudit.dimensions register).prod) :=
    bind_eq_ok_iff.mpr ⟨(), Machine.reserve_eq_ok_iff.mpr entries, rfl⟩
  rw [composeStages, Machine.product_eq_ok Qudit.pos_of_mem_dimensions blocks]
  change (identity? (Qudit.dimensions register).prod amplitudeWidth >>= fun start =>
    applyStages register start stages) = _
  rw [stored]
  rfl

/-- Without room for the register nothing is composed. -/
theorem composeStages_eq_error {register : List Qudit} {stages : List (Stage R)}
    (large : ¬Storable amplitudeWidth (Qudit.dimensions register) 1) :
    composeStages register stages = .error
      (if (Qudit.dimensions register).prod < Machine.wordRange then .capacity else .overflow) := by
  by_cases blocks : (Qudit.dimensions register).prod < Machine.wordRange
  · have full : ¬(Qudit.dimensions register).prod * (Qudit.dimensions register).prod *
        amplitudeWidth < Machine.addressRange := fun entries =>
      large ⟨blocks, by rwa [Nat.mul_one], by rwa [Nat.mul_one]⟩
    rw [composeStages, Machine.product_eq_ok Qudit.pos_of_mem_dimensions blocks, if_pos blocks]
    simp only [bind, Except.bind, identity?, Machine.reserve, full, if_false]
  · rw [composeStages, Machine.product_eq_overflow Qudit.pos_of_mem_dimensions blocks,
      if_neg blocks]
    rfl

/-- Where something is composed there is room for the register. -/
theorem storable_of_composeStages {register : List Qudit} {result : Unitary R}
    {stages : List (Stage R)} (composed : composeStages register stages = .ok (some result)) :
    Storable amplitudeWidth (Qudit.dimensions register) 1 := by
  by_contra large
  rw [composeStages_eq_error large] at composed
  cases composed

end QuditCircuits
