import QuditCircuits.Machine

/-!
# Controlled flips with borrowed workspace

A flip of a target under many controls is planned as a list of flips under few
controls. Qubits outside the flip may be borrowed: they can be in any state and
return to it. With `m` controls and at least `m - 2` borrowed qubits a ladder of
flips under two controls is run twice; with fewer borrowed qubits the controls are
split in two halves around one of them, and each half borrows the other's qubits.
Every position in a list is checked, so that a plan exists is a statement of its own.
-/

namespace QuditCircuits

variable {Q : Type}

/-- A flip of a target if its controls are all at level one. -/
inductive Flip (Q : Type) where
  | free (target : Q)
  | cnot (control target : Q)
  | toffoli (first second target : Q)
  /-- A flip under any number of controls, without workspace. -/
  | many (controls : List Q) (target : Q)
deriving DecidableEq, Repr

namespace Flip

/-- The controls of a flip. -/
def controls : Flip Q → List Q
  | .free _ => []
  | .cnot control _ => [control]
  | .toffoli first second _ => [first, second]
  | .many controls _ => controls

/-- The target of a flip. -/
def target : Flip Q → Q
  | .free target | .cnot _ target | .toffoli _ _ target | .many _ target => target

/-- How a controlled flip is planned. -/
inductive Method where
  | free
  | cnot
  | toffoli
  | alone
  | ladder
  | split
deriving DecidableEq, Repr

/-- The method for given numbers of controls and of borrowed qubits. -/
def Method.choose (controls borrowed : Nat) : Method :=
  if controls = 0 then .free
  else if controls = 1 then .cnot
  else if controls = 2 then .toffoli
  else if borrowed = 0 then .alone
  else if controls ≤ borrowed + 2 then .ladder
  else .split

namespace Method

theorem choose_eq_cnot_iff {controls borrowed : Nat} :
    choose controls borrowed = .cnot ↔ controls = 1 := by
  unfold choose
  repeat' split
  all_goals simp_all

theorem choose_eq_toffoli_iff {controls borrowed : Nat} :
    choose controls borrowed = .toffoli ↔ controls = 2 := by
  unfold choose
  repeat' split
  all_goals simp_all

/-- A ladder needs a borrowed qubit for each control but two. -/
theorem choose_eq_ladder_iff {controls borrowed : Nat} :
    choose controls borrowed = .ladder ↔
      2 < controls ∧ 1 ≤ borrowed ∧ controls ≤ borrowed + 2 := by
  unfold choose
  repeat' split
  all_goals simp
  all_goals omega

/-- With a borrowed qubit, but too few for a ladder, the controls are split. -/
theorem choose_eq_split_iff {controls borrowed : Nat} :
    choose controls borrowed = .split ↔ 1 ≤ borrowed ∧ borrowed + 2 < controls := by
  unfold choose
  repeat' split
  all_goals simp
  all_goals omega

end Method

/-- The topmost flip of a ladder, onto the target. -/
def top (controls : List Q) (target : Q) (borrowed : List Q) : Except Fault (Flip Q) := do
  let first ← Machine.nth controls (← Machine.sub controls.length 1)
  let second ← Machine.nth borrowed (← Machine.sub controls.length 3)
  return .toffoli first second target

/-- A flip between two borrowed qubits, `step` rungs below the topmost flip. -/
def rung (controls borrowed : List Q) (step : Nat) : Except Fault (Flip Q) := do
  let first ← Machine.nth controls (← Machine.sub (← Machine.sub controls.length 2) step)
  let second ← Machine.nth borrowed (← Machine.sub (← Machine.sub controls.length 4) step)
  let target ← Machine.nth borrowed (← Machine.sub (← Machine.sub controls.length 3) step)
  return .toffoli first second target

/-- The lowest flip of a ladder, from the first two controls. -/
def bottom (controls borrowed : List Q) : Except Fault (Flip Q) := do
  return .toffoli (← Machine.nth controls 0) (← Machine.nth controls 1)
    (← Machine.nth borrowed 0)

/-- One pass of a ladder: onto the target, down to the first two controls, and up
again. -/
def ladderPass (controls : List Q) (target : Q) (borrowed : List Q) :
    Except Fault (List (Flip Q)) := do
  let top ← top controls target borrowed
  let rungs ← (List.range (← Machine.sub controls.length 3)).mapM (rung controls borrowed)
  let bottom ← bottom controls borrowed
  return top :: (rungs ++ bottom :: rungs.reverse)

/-- Where the controls are split: each half then has enough qubits to borrow. -/
def splitPoint (controls borrowed : Nat) : Nat :=
  (controls + 1 + borrowed) / 2

/-- A split cuts off two controls at least, and not all of them. -/
theorem splitPoint_bounds {controls borrowed : Nat}
    (split : Method.choose controls borrowed = .split) :
    2 ≤ splitPoint controls borrowed ∧ splitPoint controls borrowed < controls := by
  have bounds := Method.choose_eq_split_iff.mp split
  unfold splitPoint
  omega

/-- Both calls of a split have fewer controls. -/
private theorem half_lengths {controls front back : List Q} {borrowed : Nat}
    (split : Method.choose controls.length borrowed = .split)
    (parts : Machine.splitAt controls (splitPoint controls.length borrowed) = .ok (front, back)) :
    front.length < controls.length ∧ back.length + 1 < controls.length := by
  have bounds := splitPoint_bounds split
  obtain ⟨_, frontIs, backIs⟩ := Machine.splitAt_eq_ok_iff.mp parts
  subst frontIs backIs
  simp
  omega

/-- Plans a flip of `target` if all controls are at level one, with `borrowed` qubits
as workspace. -/
def plan (controls : List Q) (target : Q) (borrowed : List Q) : Except Fault (List (Flip Q)) :=
  match _method : Method.choose controls.length borrowed.length with
  | .free => .ok [.free target]
  | .cnot => do return [.cnot (← Machine.nth controls 0) target]
  | .toffoli => do
      return [.toffoli (← Machine.nth controls 0) (← Machine.nth controls 1) target]
  | .alone => .ok [.many controls target]
  | .ladder => do
      let pass ← ladderPass controls target borrowed
      return pass ++ pass
  | .split =>
      match _parts : Machine.splitAt controls (splitPoint controls.length borrowed.length) with
      | .error fault => .error fault
      | .ok (front, back) => do
          let pivot ← Machine.nth borrowed 0
          let (_, others) ← Machine.splitAt borrowed 1
          let ontoPivot ← plan front pivot (back ++ target :: others)
          let fromPivot ← plan (back ++ [pivot]) target (front ++ others)
          return (ontoPivot ++ fromPivot) ++ (ontoPivot ++ fromPivot)
termination_by controls.length
decreasing_by
  · exact (half_lengths _method _parts).1
  · simpa using (half_lengths _method _parts).2

/-! ## Flips of a plan are no larger than what is planned -/

private theorem controls_length_of_top {controls borrowed : List Q} {target : Q}
    {flip : Flip Q} (built : top controls target borrowed = .ok flip) :
    flip.controls.length = 2 := by
  simp only [top, bind_eq_ok_iff] at built
  obtain ⟨_, _, _, _, _, _, _, _, equal⟩ := built
  cases equal
  rfl

private theorem controls_length_of_rung {controls borrowed : List Q} {step : Nat}
    {flip : Flip Q} (built : rung controls borrowed step = .ok flip) :
    flip.controls.length = 2 := by
  simp only [rung, bind_eq_ok_iff] at built
  obtain ⟨_, _, _, _, _, _, _, _, _, _, _, _, _, _, _, _, _, _, equal⟩ := built
  cases equal
  rfl

private theorem controls_length_of_bottom {controls borrowed : List Q} {flip : Flip Q}
    (built : bottom controls borrowed = .ok flip) : flip.controls.length = 2 := by
  simp only [bottom, bind_eq_ok_iff] at built
  obtain ⟨_, _, _, _, _, _, equal⟩ := built
  cases equal
  rfl

/-- A ladder consists of flips under two controls. -/
theorem controls_length_of_ladderPass {controls borrowed : List Q} {target : Q}
    {flips : List (Flip Q)} (built : ladderPass controls target borrowed = .ok flips)
    {flip : Flip Q} (member : flip ∈ flips) : flip.controls.length = 2 := by
  simp only [ladderPass, bind_eq_ok_iff] at built
  obtain ⟨highest, highestOk, _, _, rungs, rungsOk, lowest, lowestOk, equal⟩ := built
  cases equal
  have rungLength : ∀ flip ∈ rungs, flip.controls.length = 2 := fun flip member => by
    obtain ⟨_, _, rungOk⟩ := exists_of_mem_mapM rungsOk member
    exact controls_length_of_rung rungOk
  simp only [List.mem_cons, List.mem_append, List.mem_reverse] at member
  rcases member with rfl | inside | rfl | inside
  · exact controls_length_of_top highestOk
  · exact rungLength flip inside
  · exact controls_length_of_bottom lowestOk
  · exact rungLength flip inside

/-- No flip of a plan has more controls than the flip that is planned. -/
theorem controls_length_le_of_plan {controls borrowed : List Q} {target : Q}
    {flips : List (Flip Q)} (planned : plan controls target borrowed = .ok flips)
    {flip : Flip Q} (member : flip ∈ flips) : flip.controls.length ≤ controls.length := by
  fun_induction plan controls target borrowed generalizing flips flip with
  | case1 controls target borrowed method =>
      cases planned
      cases List.mem_singleton.mp member
      exact Nat.zero_le _
  | case2 controls target borrowed method =>
      simp only [bind_eq_ok_iff] at planned
      obtain ⟨_, _, equal⟩ := planned
      cases equal
      cases List.mem_singleton.mp member
      exact Nat.le_of_eq (Method.choose_eq_cnot_iff.mp method).symm
  | case3 controls target borrowed method =>
      simp only [bind_eq_ok_iff] at planned
      obtain ⟨_, _, _, _, equal⟩ := planned
      cases equal
      cases List.mem_singleton.mp member
      exact Nat.le_of_eq (Method.choose_eq_toffoli_iff.mp method).symm
  | case4 controls target borrowed method =>
      cases planned
      cases List.mem_singleton.mp member
      exact Nat.le_refl _
  | case5 controls target borrowed method =>
      simp only [bind_eq_ok_iff] at planned
      obtain ⟨pass, passOk, equal⟩ := planned
      cases equal
      have inPass : flip ∈ pass := (List.mem_append.mp member).elim id id
      have two := controls_length_of_ladderPass passOk inPass
      have large := (Method.choose_eq_ladder_iff.mp method).1
      omega
  | case6 controls target borrowed method fault parts => cases planned
  | case7 controls target borrowed method front back parts recurseFront recurseBack =>
      have bounds := half_lengths method parts
      simp only [bind_eq_ok_iff] at planned
      obtain ⟨pivot, _, ⟨_, others⟩, _, ontoPivot, ontoOk, fromPivot, fromOk, equal⟩ := planned
      cases equal
      have inHalves : flip ∈ ontoPivot ++ fromPivot := (List.mem_append.mp member).elim id id
      rcases List.mem_append.mp inHalves with onto | from_
      · exact Nat.le_trans (recurseFront pivot others ontoOk onto) (Nat.le_of_lt bounds.1)
      · exact Nat.le_trans (recurseBack pivot others fromOk from_)
          (by simpa using Nat.le_of_lt bounds.2)

end Flip

end QuditCircuits
