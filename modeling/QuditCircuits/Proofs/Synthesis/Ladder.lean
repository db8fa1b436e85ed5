import Mathlib.Data.List.GetD
import QuditCircuits.Proofs.Register.Controlled
import QuditCircuits.Proofs.Synthesis.FlipAction

/-!
# Ladders of flips

A ladder is read as rungs up and down a slope (`Flip.slope`). One way down and up adds to
every borrowed qubit the conjunction of the controls below it (`Flip.run_slope_workspace`).
A pass that starts one rung higher and a second one then leave a change of the target
alone (`Flip.exists_ladderPass`).
-/

namespace QuditCircuits

namespace Flip

variable {Q : Type} {control workspace : Nat → Q} {height : Nat}

/-! ## Slopes -/

/-- The rung onto the workspace qubit after `index`. -/
def rungOnto (control workspace : Nat → Q) (index : Nat) : Flip Q :=
  .toffoli (control (index + 2)) (workspace index) (workspace (index + 1))

/-- The rungs from a height down to the first two controls, and up again. -/
def slope (control workspace : Nat → Q) : Nat → List (Flip Q)
  | 0 => [.toffoli (control 0) (control 1) (workspace 0)]
  | height + 1 =>
      rungOnto control workspace height ::
        (slope control workspace height ++ [rungOnto control workspace height])

/-- The qubits of every flip of a ladder up to a height are different from each other. -/
structure Separate (control workspace : Nat → Q) (height : Nat) : Prop where
  lowest : control 0 ≠ control 1
  controls : ∀ index ≤ height + 1, ∀ rung ≤ height, control index ≠ workspace rung
  workspace : ∀ low high, low < high → high ≤ height → workspace low ≠ workspace high

/-- A lower ladder uses qubits of the higher one, so they are separate as well. -/
theorem Separate.below (separate : Separate control workspace (height + 1)) :
    Separate control workspace height where
  lowest := separate.lowest
  controls index small rung low := separate.controls index (by omega) rung (by omega)
  workspace low high less small := separate.workspace low high less (by omega)

/-- The flips of a slope are on distinct qubits. -/
theorem Separate.nodup_of_mem_slope (separate : Separate control workspace height)
    {flip : Flip Q} (member : flip ∈ slope control workspace height) :
    (flip.controls ++ [flip.target]).Nodup := by
  induction height with
  | zero =>
      cases List.mem_singleton.mp member
      simpa [Flip.controls, Flip.target] using ⟨⟨separate.lowest,
        separate.controls 0 (by omega) 0 (by omega)⟩, separate.controls 1 (by omega) 0 (by omega)⟩
  | succ height ih =>
      have topmost : flip = rungOnto control workspace height →
          (flip.controls ++ [flip.target]).Nodup := by
        rintro rfl
        simpa [rungOnto, Flip.controls, Flip.target] using
          ⟨⟨separate.controls (height + 2) (by omega) height (by omega),
            separate.controls (height + 2) (by omega) (height + 1) (by omega)⟩,
            separate.workspace height (height + 1) (by omega) (by omega)⟩
      rw [slope, List.mem_cons, List.mem_append, List.mem_singleton] at member
      rcases member with top | inside | top
      · exact topmost top
      · exact ih separate.below inside
      · exact topmost top

/-- Whether the first `count` controls are all at level one. -/
def firstControls (control : Nat → Q) (count : Nat) (state : Q → Bool) : Bool :=
  (List.range count).all fun index => state (control index)

theorem firstControls_congr {count : Nat} {first second : Q → Bool}
    (same : ∀ index < count, first (control index) = second (control index)) :
    firstControls control count first = firstControls control count second := by
  unfold firstControls
  rw [Bool.eq_iff_iff, List.all_eq_true, List.all_eq_true]
  refine forall₂_congr fun index member => ?_
  rw [same index (List.mem_range.mp member)]

/-- One more control is asked for as well. -/
theorem firstControls_succ {count : Nat} {state : Q → Bool} :
    firstControls control (count + 1) state =
      (firstControls control count state && state (control count)) := by
  simp [firstControls, List.range_succ]

/-! ## Passes -/

/-- The rungs down a slope, its lowest flip, and the rungs up again are the slope. -/
theorem rungs_eq_slope :
    ((List.range height).map fun step => rungOnto control workspace (height - 1 - step)) ++
        .toffoli (control 0) (control 1) (workspace 0) ::
          ((List.range height).map fun step =>
            rungOnto control workspace (height - 1 - step)).reverse =
      slope control workspace height := by
  induction height with
  | zero => rfl
  | succ height ih =>
      simp only [List.range_succ_eq_map, List.map_cons, List.map_map, Function.comp_def,
        Nat.add_sub_cancel, Nat.sub_zero, List.reverse_cons, List.cons_append, slope, ← ih,
        List.append_assoc, Nat.succ_eq_one_add, Nat.sub_sub]

theorem nth_eq_ok_getD {items : List Q} {position : Nat} (default : Q)
    (inside : position < items.length) :
    Machine.nth items position = .ok (items.getD position default) := by
  rw [Machine.nth_eq_ok inside, List.getD_eq_getElem _ _ inside]

/-- The workspace of a ladder: borrowed qubits up to a height, and the target above. -/
def ladderWorkspace (borrowed : List Q) (target : Q) (height index : Nat) : Q :=
  if index ≤ height then borrowed.getD index target else target

variable {controls borrowed : List Q} {target : Q}

/-- The top of the ladder is its highest rung. -/
theorem top_eq_ok (length : controls.length = height + 3) (enough : height < borrowed.length) :
    top controls target borrowed = .ok (rungOnto (controls.getD · target)
      (ladderWorkspace borrowed target height) height) := by
  have last : height + 2 < controls.length := by omega
  simp only [top, length, Machine.sub_eq_ok (Nat.le_add_left 1 (height + 2)),
    Machine.sub_eq_ok (Nat.le_add_left 3 height), Nat.add_sub_cancel, bind, Except.bind,
    nth_eq_ok_getD target last, nth_eq_ok_getD target enough]
  simp [rungOnto, ladderWorkspace, pure, Except.pure]

/-- The rungs follow downwards, one below the other. -/
theorem rung_eq_ok (target : Q) (length : controls.length = height + 3)
    (enough : height < borrowed.length) {step : Nat} (small : step < height) :
    rung controls borrowed step = .ok (rungOnto (controls.getD · target)
      (ladderWorkspace borrowed target height) (height - 1 - step)) := by
  have controlInside : height + 1 - step < controls.length := by omega
  have lowInside : height - 1 - step < borrowed.length := by omega
  have highInside : height - step < borrowed.length := by omega
  have firstSub : Machine.sub (height + 3) 2 = .ok (height + 1) := Machine.sub_eq_ok (by omega)
  have secondSub : Machine.sub (height + 3) 4 = .ok (height - 1) :=
    (Machine.sub_eq_ok (by omega)).trans (congrArg Except.ok (by omega))
  have thirdSub : Machine.sub (height + 3) 3 = .ok height := Machine.sub_eq_ok (by omega)
  simp only [rung, length, firstSub, secondSub, thirdSub, bind, Except.bind,
    Machine.sub_eq_ok (show step ≤ height + 1 by omega),
    Machine.sub_eq_ok (show step ≤ height - 1 by omega),
    Machine.sub_eq_ok (Nat.le_of_lt small), nth_eq_ok_getD target controlInside,
    nth_eq_ok_getD target lowInside, nth_eq_ok_getD target highInside]
  have control : height - 1 - step + 2 = height + 1 - step := by omega
  have high : height - 1 - step + 1 = height - step := by omega
  simp [rungOnto, ladderWorkspace, pure, Except.pure, control, high]
  omega

/-- The bottom of the ladder joins the first two controls. -/
theorem bottom_eq_ok (target : Q) (length : controls.length = height + 3)
    (enough : height < borrowed.length) :
    bottom controls borrowed = .ok (.toffoli (controls.getD 0 target) (controls.getD 1 target)
      (ladderWorkspace borrowed target height 0)) := by
  simp only [bottom, bind, Except.bind,
    nth_eq_ok_getD target (show 0 < controls.length by omega),
    nth_eq_ok_getD target (show 1 < controls.length by omega),
    nth_eq_ok_getD target (Nat.zero_lt_of_lt enough)]
  simp [ladderWorkspace, pure, Except.pure]

/-- A pass of a ladder is its topmost rung before a slope. -/
theorem ladderPass_eq_ok (length : controls.length = height + 3)
    (enough : height < borrowed.length) :
    ladderPass controls target borrowed = .ok
      (rungOnto (controls.getD · target) (ladderWorkspace borrowed target height) height ::
        slope (controls.getD · target) (ladderWorkspace borrowed target height) height) := by
  have thirdSub : Machine.sub (height + 3) 3 = .ok height := Machine.sub_eq_ok (by omega)
  have rungs := mapM_eq_ok fun step member =>
    rung_eq_ok target length enough (List.mem_range.mp member)
  rw [ladderPass, top_eq_ok length enough, length, thirdSub, ← rungs_eq_slope]
  simp only [bind, Except.bind, rungs, bottom_eq_ok target length enough]
  rfl

/-- Distinct controls, target and borrowed qubits make a ladder of separate qubits. -/
theorem separate_ladderWorkspace (length : controls.length = height + 3)
    (enough : height < borrowed.length) (distinct : (controls ++ target :: borrowed).Nodup) :
    Separate (controls.getD · target) (ladderWorkspace borrowed target height) (height + 1) := by
  obtain ⟨controlsDistinct, ⟨fresh, borrowedDistinct⟩, apart⟩ :
      controls.Nodup ∧ (target ∉ borrowed ∧ borrowed.Nodup) ∧
        ∀ control ∈ controls, ∀ other ∈ target :: borrowed, control ≠ other := by
    rwa [List.nodup_append, List.nodup_cons] at distinct
  have inside : ∀ rung ≤ height, ladderWorkspace borrowed target height rung ∈ borrowed := by
    intro rung low
    rw [ladderWorkspace, if_pos low, List.getD_eq_getElem _ _ (by omega)]
    exact List.getElem_mem _
  have onTop : ladderWorkspace borrowed target height (height + 1) = target :=
    if_neg (by omega)
  refine ⟨?_, fun index small rung low => apart _ ?_ _ ?_, fun lower higher less small => ?_⟩
  · rw [List.getD_eq_getElem _ _ (by omega), List.getD_eq_getElem _ _ (by omega)]
    exact fun same => absurd (controlsDistinct.getElem_inj_iff.mp same) (by omega)
  · rw [List.getD_eq_getElem _ _ (by omega)]
    exact List.getElem_mem _
  · rcases Nat.lt_or_eq_of_le low with below | rfl
    · exact List.mem_cons_of_mem _ (inside rung (by omega))
    · rw [onTop]
      exact List.mem_cons_self
  · rcases Nat.lt_or_eq_of_le small with below | rfl
    · rw [ladderWorkspace, ladderWorkspace, if_pos (by omega), if_pos (by omega),
        List.getD_eq_getElem _ _ (by omega), List.getD_eq_getElem _ _ (by omega)]
      exact fun same => absurd (borrowedDistinct.getElem_inj_iff.mp same) (by omega)
    · rw [onTop]
      exact fun same => fresh (same ▸ inside lower (by omega))

theorem firstControls_getD (controls : List Q) (default : Q) (state : Q → Bool) :
    firstControls (controls.getD · default) controls.length state = controls.all state := by
  have listed : (List.range controls.length).map (controls.getD · default) = controls := by
    refine List.ext_getElem (by simp) fun index _ small => ?_
    rw [List.getElem_map, List.getElem_range, List.getD_eq_getElem _ _ small]
  calc firstControls (controls.getD · default) controls.length state
      = ((List.range controls.length).map (controls.getD · default)).all state :=
        List.all_map.symm
    _ = controls.all state := by rw [listed]

/-! ## Basis states -/

variable [DecidableEq Q]

/-- A rung changes the qubit above it, if its control and the qubit below are set. -/
theorem act_rungOnto {index : Nat} {state : Q → Bool} :
    (rungOnto control workspace index).act state =
      Function.update state (workspace (index + 1)) (state (workspace (index + 1)) ^^
        (state (control (index + 2)) && state (workspace index))) := by
  simp [act, rungOnto, target, Flip.controls]

/-- A slope leaves everything but its workspace qubits as it was. -/
theorem run_slope_of_ne {qubit : Q} (other : ∀ rung ≤ height, qubit ≠ workspace rung)
    (state : Q → Bool) : run (slope control workspace height) state qubit = state qubit := by
  induction height generalizing state with
  | zero => exact act_of_ne (other 0 (Nat.le_refl 0))
  | succ height ih =>
      have top : qubit ≠ (rungOnto control workspace height).target :=
        other (height + 1) (Nat.le_refl _)
      rw [slope, run_cons, run_append, run_cons, run_nil, act_of_ne top,
        ih (fun rung low => other rung (by omega)), act_of_ne top]

/-- **A slope adds conjunctions.** Every workspace qubit changes exactly if all controls
up to its own are at level one, whatever the workspace was. -/
theorem run_slope_workspace (separate : Separate control workspace height) {rung : Nat}
    (low : rung ≤ height) (state : Q → Bool) :
    run (slope control workspace height) state (workspace rung) =
      (state (workspace rung) ^^ firstControls control (rung + 2) state) := by
  induction height generalizing rung state with
  | zero =>
      cases Nat.le_zero.mp low
      simp [slope, act, target, Flip.controls, firstControls, List.range_succ]
  | succ height ih =>
      -- Controls and lower workspace qubits are not touched by the topmost rung.
      have keepsControls : ∀ index < height + 2,
          (rungOnto control workspace height).act state (control index) =
            state (control index) := fun index small =>
        act_of_ne (separate.controls index (by omega) (height + 1) (Nat.le_refl _))
      rw [slope, run_cons, run_append, run_cons, run_nil]
      rcases Nat.lt_or_eq_of_le low with below | rfl
      · have apart : workspace rung ≠ (rungOnto control workspace height).target :=
          separate.workspace rung (height + 1) below (Nat.le_refl _)
        rw [act_of_ne apart, ih separate.below (Nat.lt_succ_iff.mp below), act_of_ne apart,
          firstControls_congr fun index small => keepsControls index (by omega)]
      · have apart : workspace height ≠ workspace (height + 1) :=
          separate.workspace height (height + 1) (Nat.lt_succ_self _) (Nat.le_refl _)
        have topKept : run (slope control workspace height)
            ((rungOnto control workspace height).act state) (workspace (height + 1)) =
              (state (workspace (height + 1)) ^^
                (state (control (height + 2)) && state (workspace height))) := by
          rw [run_slope_of_ne fun rung small => (separate.workspace rung (height + 1)
            (by omega) (Nat.le_refl _)).symm, act_rungOnto, Function.update_self]
        have controlKept : run (slope control workspace height)
            ((rungOnto control workspace height).act state) (control (height + 2)) =
              state (control (height + 2)) := by
          rw [run_slope_of_ne fun rung small => separate.controls (height + 2) (Nat.le_refl _) rung
            (by omega), act_of_ne (separate.controls (height + 2) (Nat.le_refl _) (height + 1)
              (Nat.le_refl _))]
        have belowChanged : run (slope control workspace height)
            ((rungOnto control workspace height).act state) (workspace height) =
              (state (workspace height) ^^ firstControls control (height + 2) state) := by
          rw [ih separate.below (Nat.le_refl _), act_of_ne apart,
            firstControls_congr keepsControls]
        have grown : firstControls control (height + 1 + 2) state =
            (firstControls control (height + 2) state && state (control (height + 2))) :=
          firstControls_succ
        rw [act_rungOnto, Function.update_self, topKept, controlKept, belowChanged, grown]
        -- What the lower qubit was before cancels between the two rungs.
        cases state (control (height + 2)) <;> cases state (workspace height) <;>
          cases firstControls control (height + 2) state <;> simp

/-- **A ladder flips its top.** The slope one rung higher and then the slope itself
change the topmost workspace qubit alone. -/
theorem run_slope_slope (separate : Separate control workspace (height + 1))
    (state : Q → Bool) :
    run (slope control workspace (height + 1) ++ slope control workspace height) state =
      Function.update state (workspace (height + 1))
        (state (workspace (height + 1)) ^^ firstControls control (height + 3) state) := by
  rw [run_append]
  funext qubit
  by_cases top : qubit = workspace (height + 1)
  · subst top
    rw [Function.update_self, run_slope_of_ne fun rung small => (separate.workspace rung
      (height + 1) (by omega) (Nat.le_refl _)).symm,
      run_slope_workspace separate (Nat.le_refl _)]
  · rw [Function.update_of_ne top]
    by_cases borrowed : ∃ rung ≤ height, qubit = workspace rung
    · obtain ⟨rung, low, rfl⟩ := borrowed
      have keepsControls : ∀ index < rung + 2,
          run (slope control workspace (height + 1)) state (control index) =
            state (control index) := fun index small =>
        run_slope_of_ne (fun other _ => separate.controls index (by omega) other (by omega)) state
      rw [run_slope_workspace separate.below low,
        run_slope_workspace separate (Nat.le_succ_of_le low),
        firstControls_congr keepsControls, Bool.xor_assoc, Bool.xor_self, Bool.xor_false]
    · have other : ∀ rung ≤ height, qubit ≠ workspace rung := fun rung low same =>
        borrowed ⟨rung, low, same⟩
      rw [run_slope_of_ne other, run_slope_of_ne]
      intro rung low same
      rcases Nat.lt_or_eq_of_le low with below | rfl
      · exact other rung (Nat.lt_succ_iff.mp below) same
      · exact top same

/-- **Two passes of a ladder flip its target** and restore what they borrow. -/
theorem exists_ladderPass (length : controls.length = height + 3)
    (enough : height < borrowed.length) (distinct : (controls ++ target :: borrowed).Nodup) :
    ∃ pass, ladderPass controls target borrowed = .ok pass ∧
      ∀ state, run (pass ++ pass) state = (many controls target).act state := by
  refine ⟨_, ladderPass_eq_ok length enough, fun state => ?_⟩
  have slopes := run_slope_slope (separate_ladderWorkspace length enough distinct) state
  have onTop : ladderWorkspace borrowed target height (height + 1) = target :=
    if_neg (by omega)
  rw [onTop, ← length, firstControls_getD] at slopes
  simpa only [slope, List.cons_append, List.append_assoc, List.nil_append, act, Flip.target,
    Flip.controls] using slopes

end Flip

end QuditCircuits
