import QuditCircuits.Proofs.Synthesis.Ladder

/-!
# Plans of flips

A plan exists for different qubits, and it acts as the flip that is planned
(`Flip.exists_plan`): a ladder by its two passes, and a split by two rounds of its halves.
Its flips are of different qubits and, with qubits to borrow, under at most two controls.
-/

namespace QuditCircuits

namespace Flip

variable {Q : Type}

theorem Method.choose_eq_free_iff {controls borrowed : Nat} :
    Method.choose controls borrowed = .free ↔ controls = 0 := by
  unfold Method.choose
  repeat' split
  all_goals simp_all

/-- Several controls without borrowed qubits are on their own. -/
theorem Method.choose_eq_alone_iff {controls borrowed : Nat} :
    Method.choose controls borrowed = .alone ↔ 2 < controls ∧ borrowed = 0 := by
  unfold Method.choose
  repeat' split
  all_goals simp
  all_goals omega

theorem nth_zero {first : Q} {others : List Q} : Machine.nth (first :: others) 0 = .ok first :=
  rfl

theorem splitAt_one {first : Q} {others : List Q} :
    Machine.splitAt (first :: others) 1 = .ok ([first], others) :=
  Machine.splitAt_eq_ok (by simp)

/-- A split has two halves, and a borrowed qubit as its pivot. -/
theorem exists_pivot_of_split {controls borrowed front back : List Q}
    (method : Method.choose controls.length borrowed.length = .split)
    (parts : Machine.splitAt controls (splitPoint controls.length borrowed.length) =
      .ok (front, back)) :
    controls = front ++ back ∧ front.length = splitPoint controls.length borrowed.length ∧
      ∃ pivot others, borrowed = pivot :: others := by
  obtain ⟨inside, frontIs, backIs⟩ := Machine.splitAt_eq_ok_iff.mp parts
  refine ⟨?_, ?_, List.exists_cons_of_length_pos (Method.choose_eq_split_iff.mp method).1⟩
  · rw [← frontIs, ← backIs, List.take_append_drop]
  · rw [← frontIs, List.length_take, Nat.min_eq_left inside]

/-- With qubits to borrow a plan has flips under at most two controls. -/
theorem controls_length_le_two_of_plan {controls borrowed : List Q} {target : Q}
    (some : borrowed ≠ []) {flips : List (Flip Q)}
    (planned : plan controls target borrowed = .ok flips) {flip : Flip Q}
    (member : flip ∈ flips) : flip.controls.length ≤ 2 := by
  fun_induction plan controls target borrowed generalizing flips flip with
  | case1 controls target borrowed method =>
      cases planned
      cases List.mem_singleton.mp member
      exact Nat.zero_le _
  | case2 controls target borrowed method =>
      simp only [bind_eq_ok_iff] at planned
      obtain ⟨_, _, equal⟩ := planned
      cases equal
      cases List.mem_singleton.mp member
      exact Nat.le_succ 1
  | case3 controls target borrowed method =>
      simp only [bind_eq_ok_iff] at planned
      obtain ⟨_, _, _, _, equal⟩ := planned
      cases equal
      cases List.mem_singleton.mp member
      exact Nat.le_refl 2
  | case4 controls target borrowed method =>
      exact absurd (List.length_eq_zero_iff.mp (Method.choose_eq_alone_iff.mp method).2) some
  | case5 controls target borrowed method =>
      simp only [bind_eq_ok_iff] at planned
      obtain ⟨pass, passOk, equal⟩ := planned
      cases equal
      have inPass : flip ∈ pass := (List.mem_append.mp member).elim id id
      exact Nat.le_of_eq (controls_length_of_ladderPass passOk inPass)
  | case6 controls target borrowed method fault parts => cases planned
  | case7 controls target borrowed method front back parts recurseFront recurseBack =>
      obtain ⟨-, half, -⟩ := exists_pivot_of_split method parts
      have bounds := splitPoint_bounds method
      -- The front half is not empty, and the back half borrows it.
      have frontSome : front ≠ [] := List.ne_nil_of_length_pos (by omega)
      simp only [bind_eq_ok_iff] at planned
      obtain ⟨pivot, _, ⟨_, others⟩, _, ontoPivot, ontoOk, fromPivot, fromOk, equal⟩ := planned
      cases equal
      have inHalves : flip ∈ ontoPivot ++ fromPivot := (List.mem_append.mp member).elim id id
      rcases List.mem_append.mp inHalves with onto | back
      · exact recurseFront pivot others (by simp) ontoOk onto
      · exact recurseBack pivot others (by simp [frontSome]) fromOk back

variable [DecidableEq Q]

/-- Both halves of a split use the qubits of the whole, in another order. -/
theorem nodup_halves {controls front back others : List Q} {pivot target : Q}
    (halves : controls = front ++ back)
    (distinct : (controls ++ target :: pivot :: others).Nodup) :
    (front ++ pivot :: (back ++ target :: others)).Nodup ∧
      ((back ++ [pivot]) ++ target :: (front ++ others)).Nodup := by
  subst halves
  exact ⟨(List.Perm.nodup_iff (by grind)).mp distinct,
    (List.Perm.nodup_iff (by grind)).mp distinct⟩

/-- **Plans are correct.** For different qubits there is a plan, and it acts as the
flip that is planned. -/
theorem exists_plan (controls : List Q) (target : Q) (borrowed : List Q)
    (distinct : (controls ++ target :: borrowed).Nodup) :
    ∃ flips, plan controls target borrowed = .ok flips ∧
      ∀ state, run flips state = (many controls target).act state := by
  fun_induction plan controls target borrowed with
  | case1 controls target borrowed method =>
      have none : controls = [] :=
        List.length_eq_zero_iff.mp (Method.choose_eq_free_iff.mp method)
      subst none
      exact ⟨_, rfl, fun state => rfl⟩
  | case2 controls target borrowed method =>
      obtain ⟨control, rfl⟩ := List.length_eq_one_iff.mp (Method.choose_eq_cnot_iff.mp method)
      exact ⟨_, rfl, fun state => rfl⟩
  | case3 controls target borrowed method =>
      obtain ⟨first, second, rfl⟩ :=
        List.length_eq_two.mp (Method.choose_eq_toffoli_iff.mp method)
      exact ⟨_, rfl, fun state => rfl⟩
  | case4 controls target borrowed method => exact ⟨_, rfl, fun state => rfl⟩
  | case5 controls target borrowed method =>
      have large := Method.choose_eq_ladder_iff.mp method
      have length : controls.length = controls.length - 3 + 3 := by omega
      obtain ⟨pass, passOk, action⟩ := exists_ladderPass length (by omega) distinct
      exact ⟨pass ++ pass, by rw [passOk]; rfl, action⟩
  | case6 controls target borrowed method fault parts =>
      rw [Machine.splitAt_eq_ok (Nat.le_of_lt (splitPoint_bounds method).2)] at parts
      cases parts
  | case7 controls target borrowed method front back parts recurseFront recurseBack =>
      obtain ⟨halves, -, pivot, others, rfl⟩ := exists_pivot_of_split method parts
      obtain ⟨forFront, forBack⟩ := nodup_halves halves distinct
      obtain ⟨ontoPivot, ontoOk, ontoAction⟩ := recurseFront pivot others forFront
      obtain ⟨fromPivot, fromOk, fromAction⟩ := recurseBack pivot others forBack
      refine ⟨(ontoPivot ++ fromPivot) ++ (ontoPivot ++ fromPivot), ?_, fun state => ?_⟩
      · rw [splitAt_one, nth_zero]
        simp only [bind, Except.bind, ontoOk, fromOk]
        rfl
      · have apart : pivot ≠ target ∧ (pivot ∉ front ∧ pivot ∉ back) ∧
            target ∉ front ∧ target ∉ back := by
          grind
        obtain ⟨notTarget, ⟨pivotFront, pivotBack⟩, targetFront, targetBack⟩ := apart
        rw [halves, ← act_split pivotFront pivotBack targetFront targetBack notTarget state]
        simp only [run_append, run_cons, run_nil, ontoAction, fromAction]

/-- A flip of a plan is one of different qubits. -/
theorem nodup_of_plan {controls borrowed : List Q} {target : Q}
    (distinct : (controls ++ target :: borrowed).Nodup) {flips : List (Flip Q)}
    (planned : plan controls target borrowed = .ok flips) {flip : Flip Q}
    (member : flip ∈ flips) : (flip.controls ++ [flip.target]).Nodup := by
  fun_induction plan controls target borrowed generalizing flips flip with
  | case1 controls target borrowed method =>
      cases planned
      cases List.mem_singleton.mp member
      simp [Flip.controls]
  | case2 controls target borrowed method =>
      obtain ⟨control, rfl⟩ := List.length_eq_one_iff.mp (Method.choose_eq_cnot_iff.mp method)
      cases planned
      cases List.mem_singleton.mp member
      exact distinct.sublist (by simp [Flip.controls, Flip.target])
  | case3 controls target borrowed method =>
      obtain ⟨first, second, rfl⟩ :=
        List.length_eq_two.mp (Method.choose_eq_toffoli_iff.mp method)
      cases planned
      cases List.mem_singleton.mp member
      exact distinct.sublist (by simp [Flip.controls, Flip.target])
  | case4 controls target borrowed method =>
      cases planned
      cases List.mem_singleton.mp member
      exact distinct.sublist (by simp [Flip.controls, Flip.target])
  | case5 controls target borrowed method =>
      have large := Method.choose_eq_ladder_iff.mp method
      have length : controls.length = controls.length - 3 + 3 := by omega
      have enough : controls.length - 3 < borrowed.length := by omega
      rw [ladderPass_eq_ok length enough] at planned
      cases planned
      have inSlope : flip ∈ slope (controls.getD · target)
          (ladderWorkspace borrowed target (controls.length - 3)) (controls.length - 3 + 1) := by
        rw [slope]
        grind
      exact (separate_ladderWorkspace length enough distinct).nodup_of_mem_slope inSlope
  | case6 controls target borrowed method fault parts => cases planned
  | case7 controls target borrowed method front back parts recurseFront recurseBack =>
      obtain ⟨halves, -, pivot, others, rfl⟩ := exists_pivot_of_split method parts
      obtain ⟨forFront, forBack⟩ := nodup_halves halves distinct
      simp only [nth_zero, splitAt_one, bind_eq_ok_iff] at planned
      obtain ⟨_, ⟨⟩, ⟨_, _⟩, ⟨⟩, ontoPivot, ontoOk, fromPivot, fromOk, equal⟩ := planned
      cases equal
      have inHalves : flip ∈ ontoPivot ++ fromPivot := (List.mem_append.mp member).elim id id
      rcases List.mem_append.mp inHalves with onto | back
      · exact recurseFront pivot others forFront ontoOk onto
      · exact recurseBack pivot others forBack fromOk back

/-- Every flip undoes itself, so that a plan backwards acts as the plan. -/
theorem run_reverse_of_plan {controls borrowed : List Q} {target : Q}
    (distinct : (controls ++ target :: borrowed).Nodup) {flips : List (Flip Q)}
    (planned : plan controls target borrowed = .ok flips) (state : Q → Bool) :
    run flips.reverse state = (many controls target).act state := by
  obtain ⟨_, same, action⟩ := exists_plan controls target borrowed distinct
  cases same.symm.trans planned
  have undone := run_reverse_run (fun flip member => nodup_of_plan distinct planned member)
    ((many controls target).act state)
  have separate : ((many controls target).controls ++ [(many controls target).target]).Nodup :=
    distinct.sublist (by simp [Flip.controls, Flip.target])
  rwa [action, act_act separate] at undone

/-- **A plan flips its target alone.** The target changes exactly if all controls are at
level one; every other qubit, borrowed or not, is as it was before. -/
theorem plan_flips_target (controls : List Q) (target : Q) (borrowed : List Q)
    (distinct : (controls ++ target :: borrowed).Nodup) :
    ∃ flips, plan controls target borrowed = .ok flips ∧ ∀ state : Q → Bool,
      run flips state = Function.update state target (state target ^^ controls.all state) :=
  exists_plan controls target borrowed distinct

/-- Five controls with one borrowed qubit, which are split. -/
theorem plan_flips_target_split :
    ([0, 1, 2, 3, 4] ++ 5 :: [6] : List Nat).Nodup ∧
    ∃ flips, plan [0, 1, 2, 3, 4] 5 [6] = .ok flips ∧ ∀ state : Nat → Bool,
      run flips state = Function.update state 5 (state 5 ^^ [0, 1, 2, 3, 4].all state) :=
  ⟨by decide, plan_flips_target [0, 1, 2, 3, 4] 5 [6] (by decide)⟩

end Flip

end QuditCircuits
