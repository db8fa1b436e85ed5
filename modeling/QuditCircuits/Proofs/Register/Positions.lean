import QuditCircuits.Gate.Unitary
import QuditCircuits.Proofs.Register.ControlledProduct

/-!
# Positions of qudits in a register

In a register of different qudits the positions of some of its qudits are those at which
the register has them (`positionsIn_eq_some_iff`). Different qudits have different positions and
the other way round, positions of positions are positions (`PlacedAt.trans`), and controls in
front of both shift the positions behind themselves (`PlacedAt.behind`).
-/

namespace QuditCircuits

open Register

/-- The register has each of the qudits at its position. -/
abbrev PlacedAt (register qudits : List Qudit) (positions : List Nat) : Prop :=
  List.Forall₂ (fun qudit position => register[position]? = some qudit) qudits positions

/-- The register has qudits at the positions that are found for them. -/
theorem placedAt_of_positionsIn {register qudits : List Qudit} {positions : List Nat}
    (found : positionsIn register qudits = some positions) :
    PlacedAt register qudits positions := by
  induction qudits generalizing positions with
  | nil =>
      cases found
      exact List.Forall₂.nil
  | cons qudit qudits ih =>
      unfold positionsIn at ih found
      simp only [List.mapM_cons, Option.bind_eq_bind, Option.bind_eq_some_iff, Option.pure_def,
        Option.some.injEq] at found
      obtain ⟨position, here, others, placed, rfl⟩ := found
      obtain ⟨inside, same, -⟩ := List.idxOf?_eq_some_iff.mp here
      exact List.Forall₂.cons (List.getElem?_eq_some_iff.mpr ⟨inside, same⟩) (ih placed)

/-- In a register without repetition the search finds where the qudits are placed. -/
theorem positionsIn_eq_some_iff {register qudits : List Qudit} {positions : List Nat}
    (distinct : register.Nodup) :
    positionsIn register qudits = some positions ↔ PlacedAt register qudits positions := by
  refine ⟨placedAt_of_positionsIn, fun placed => ?_⟩
  induction placed with
  | nil => rfl
  | @cons qudit position _ _ here _ ih =>
      obtain ⟨inside, same⟩ := List.getElem?_eq_some_iff.mp here
      have first : ∀ index (below : index < position), register[index] ≠ qudit :=
        fun index below equal =>
          Nat.ne_of_lt below (distinct.getElem_inj_iff.mp (equal.trans same.symm))
      have found := List.idxOf?_eq_some_iff.mpr ⟨inside, same, first⟩
      unfold positionsIn at ih ⊢
      rw [List.mapM_cons, found, ih]
      rfl

/-- Qudits have no positions if one of them is outside the register. -/
theorem positionsIn_eq_none_iff {register qudits : List Qudit} :
    positionsIn register qudits = none ↔ ∃ qudit ∈ qudits, qudit ∉ register := by
  induction qudits with
  | nil => simp [positionsIn]
  | cons qudit qudits ih =>
      unfold positionsIn at ih ⊢
      rw [List.mapM_cons, List.exists_mem_cons_iff, ← ih, ← List.idxOf?_eq_none_iff]
      cases register.idxOf? qudit <;> cases qudits.mapM fun qudit => register.idxOf? qudit <;> simp

namespace PlacedAt

variable {register qudits : List Qudit} {positions : List Nat}

/-- The positions of qudits lie in the register. -/
theorem inside (placed : PlacedAt register qudits positions) :
    ∀ position ∈ positions, position < (Qudit.dimensions register).length := by
  rw [Qudit.dimensions, List.length_map]
  induction placed with
  | nil => simp
  | cons here _ ih =>
      intro position member
      rcases List.mem_cons.mp member with rfl | later
      · exact (List.getElem?_eq_some_iff.mp here).1
      · exact ih position later

theorem exists_qudit (placed : PlacedAt register qudits positions) {position : Nat}
    (member : position ∈ positions) : ∃ qudit ∈ qudits, register[position]? = some qudit := by
  induction placed with
  | nil => cases member
  | cons here _ ih =>
      rcases List.mem_cons.mp member with rfl | later
      · exact ⟨_, List.mem_cons_self, here⟩
      · obtain ⟨qudit, listed, found⟩ := ih later
        exact ⟨qudit, List.mem_cons_of_mem _ listed, found⟩

theorem subset (placed : PlacedAt register qudits positions) : qudits ⊆ register := by
  induction placed with
  | nil => exact List.nil_subset _
  | cons here _ ih => exact List.cons_subset.mpr ⟨List.mem_of_getElem? here, ih⟩

/-- Different qudits have different positions. -/
theorem nodup (placed : PlacedAt register qudits positions) (distinct : qudits.Nodup) :
    positions.Nodup := by
  induction placed with
  | nil => exact List.nodup_nil
  | cons here rest ih =>
      obtain ⟨fresh, distinct⟩ := List.nodup_cons.mp distinct
      refine List.nodup_cons.mpr ⟨fun member => ?_, ih distinct⟩
      obtain ⟨other, listed, found⟩ := exists_qudit rest member
      rw [here] at found
      exact fresh (Option.some.inj found ▸ listed)

/-- Different positions have different qudits. -/
theorem qudits_nodup (placed : PlacedAt register qudits positions)
    (registerDistinct : register.Nodup) (distinct : positions.Nodup) : qudits.Nodup := by
  induction placed with
  | nil => exact List.nodup_nil
  | @cons qudit position qudits positions here rest ih =>
      obtain ⟨fresh, distinct⟩ := List.nodup_cons.mp distinct
      refine List.nodup_cons.mpr ⟨fun member => ?_, ih distinct⟩
      obtain ⟨index, small, rfl⟩ := List.mem_iff_getElem.mp member
      have room : index < positions.length := rest.length_eq ▸ small
      have there : register[positions[index]]? = some qudits[index] :=
        List.Forall₂.get rest small room
      have inside := (List.getElem?_eq_some_iff.mp here).1
      have same := (List.getElem?_inj inside registerDistinct).mp (here.trans there.symm)
      exact fresh (same ▸ List.getElem_mem room)

/-- Qudits that are apart have positions that are apart. -/
theorem disjoint {others : List Qudit} {otherPositions : List Nat}
    (placed : PlacedAt register qudits positions)
    (othersPlaced : PlacedAt register others otherPositions) (apart : List.Disjoint qudits others) :
    List.Disjoint positions otherPositions := by
  intro position member otherMember
  obtain ⟨qudit, listed, here⟩ := placed.exists_qudit member
  obtain ⟨other, otherListed, there⟩ := othersPlaced.exists_qudit otherMember
  cases Option.some.inj (here.symm.trans there)
  exact apart listed otherListed

/-- The dimensions of qudits are picked at their positions. -/
theorem dimensions (placed : PlacedAt register qudits positions) :
    Qudit.dimensions qudits = pick (Qudit.dimensions register) positions := by
  induction placed with
  | nil => rfl
  | cons here _ ih =>
      refine congrArg₂ List.cons ?_ ih
      simp [Qudit.dimensions, here]

/-- The qudits at positions of placed qudits are at the positions of these. -/
theorem trans {others : List Qudit} {otherPositions : List Nat}
    (placed : PlacedAt register qudits positions)
    (othersPlaced : PlacedAt qudits others otherPositions) :
    PlacedAt register others (pick positions otherPositions) := by
  refine List.forall₂_map_right_iff.mpr (othersPlaced.imp fun qudit position found => ?_)
  obtain ⟨small, same⟩ := List.getElem?_eq_some_iff.mp found
  have room : position < positions.length := placed.length_eq ▸ small
  rw [List.getD_eq_getElem _ _ room, ← same]
  exact List.Forall₂.get placed small room

/-- Controls in front of a register move the positions of its qudits by their number. -/
theorem behind {controls : List Qudit} (placed : PlacedAt register qudits positions) :
    PlacedAt (controls ++ register) (controls ++ qudits)
      (Register.behind controls.length positions) := by
  refine List.rel_append (List.forall₂_iff_get.mpr ⟨by simp, fun index small _ => ?_⟩) ?_
  · rw [List.get_eq_getElem, List.get_eq_getElem, List.getElem_range,
      List.getElem?_append_left small, List.getElem?_eq_getElem small]
  · refine List.forall₂_map_right_iff.mpr (placed.imp fun qudit position found => ?_)
    rw [List.getElem?_append_right (Nat.le_add_right _ _), Nat.add_sub_cancel_left, found]

/-- The first qudits of a register are at the first positions. -/
theorem front {controls others : List Qudit} :
    PlacedAt (controls ++ others) controls (List.range controls.length) := by
  have behindNothing : PlacedAt (controls ++ others) (controls ++ [])
      (Register.behind controls.length []) := behind .nil
  simpa [Register.behind] using behindNothing

end PlacedAt

end QuditCircuits
