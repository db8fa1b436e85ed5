import Mathlib.Logic.Relation
import QuditCircuits.Proofs.Gate.Faultless
import QuditCircuits.Proofs.Synthesis.Size

/-!
# Calls of a construction

The square-root construction asks for flips of its last control. A flip asks for flips under two
controls, for flips of its halves, or, if nothing can be borrowed, for the construction of an
exchange under all of its controls. `Call.body` is what one call does by itself: its own steps and
the calls that it makes, with every position checked. Bodies succeed (`Call.exists_body`) and a
call makes lighter calls only (`Call.weight_lt_of_makes`), so calls end, and the bodies determine
the steps of a call, which are those of the construction and of the plans
(`Call.steps_eq_expand`, `Call.eq_steps_of_expand`).
-/

namespace QuditCircuits

/-- A call for an operator under controls, for a flip under two controls, or for a flip under any
number of them. The last list is what may be borrowed. -/
inductive Call (M Q : Type) where
  | rotate (operator : M) (controls : List Q) (target : Q) (borrowed : List Q)
  | toffoli (first second target : Q)
  | flip (controls : List Q) (target : Q) (borrowed : List Q)

/-- An entry of a body: a step of the call itself, or a call that it makes. -/
abbrev Call.Entry (M Q : Type) : Type := RotationStep M Q ⊕ Call M Q

variable {M Q : Type} [RootedOperator M]

/-- A planned flip as an entry of a body. -/
def Flip.entry : Flip Q → Call.Entry M Q
  | .free target => .inl (.flip target)
  | .cnot control target => .inl (.cnot control target)
  | .toffoli first second target => .inr (.toffoli first second target)
  | .many controls target => .inr (.rotate RootedOperator.flip controls target [])

namespace Call

/-- The calls that split off the last control of an operator. -/
def descent (operator : M) (rest : List Q) (last target : Q) (borrowed : List Q) :
    List (Entry M Q) :=
  let root := RootedOperator.root operator
  let flip := .inr (.flip rest last (target :: borrowed))
  [.inr (.rotate root [last] target []), flip,
    .inr (.rotate (RootedOperator.adjoint root) [last] target []), flip,
    .inr (.rotate root rest target (last :: borrowed))]

/-- The calls for the two halves of a flip around a borrowed qubit. -/
def halves (front back : List Q) (pivot target : Q) (others : List Q) : List (Entry M Q) :=
  [.inr (.flip front pivot (back ++ target :: others)),
    .inr (.flip (back ++ [pivot]) target (front ++ others))]

/-- What a call does by itself, in order. -/
def body : Call M Q → Except Fault (List (Entry M Q))
  | .rotate operator [] target _ => .ok [.inl (.apply operator target)]
  | .rotate operator [control] target _ => .ok [.inl (.applyIf operator control target)]
  | .rotate operator (first :: second :: others) target borrowed =>
      .ok (descent operator (first :: (second :: others).dropLast)
        ((second :: others).getLast (List.cons_ne_nil second others)) target borrowed)
  | .toffoli first second target =>
      .ok [.inr (.rotate RootedOperator.flip [first, second] target [])]
  | .flip controls target borrowed =>
      match Flip.Method.choose controls.length borrowed.length with
      | .free => .ok [.inl (.flip target)]
      | .cnot => do return [.inl (.cnot (← Machine.nth controls 0) target)]
      | .toffoli => do
          return [.inr (.toffoli (← Machine.nth controls 0) (← Machine.nth controls 1) target)]
      | .alone => .ok [.inr (.rotate RootedOperator.flip controls target [])]
      | .ladder => do
          let pass ← Flip.ladderPass controls target borrowed
          return (pass ++ pass).map Flip.entry
      | .split => do
          let (front, back) ← Machine.splitAt controls
            (Flip.splitPoint controls.length borrowed.length)
          let pivot ← Machine.nth borrowed 0
          let (_, others) ← Machine.splitAt borrowed 1
          return halves front back pivot target others ++ halves front back pivot target others

/-- The steps of an entry whose call is answered by `answer`. -/
def answered (answer : Call M Q → Except Fault (List (RotationStep M Q))) :
    Entry M Q → Except Fault (List (RotationStep M Q))
  | .inl step => .ok [step]
  | .inr call => answer call

/-- The steps of a body whose calls are answered by `answer`. -/
def expand (answer : Call M Q → Except Fault (List (RotationStep M Q))) (call : Call M Q) :
    Except Fault (List (RotationStep M Q)) := do
  return (← (← call.body).mapM (answered answer)).flatten

/-- The steps of a call, by the construction and the plans. -/
def steps : Call M Q → Except Fault (List (RotationStep M Q))
  | .rotate operator controls target borrowed =>
      RotationStep.rotate operator controls target borrowed
  | .toffoli first second target =>
      RotationStep.rotate RootedOperator.flip [first, second] target []
  | .flip controls target borrowed => do
      return (← (← Flip.plan controls target borrowed).mapM Flip.steps).flatten

/-- A call makes those that its body lists. -/
def Makes (caller callee : Call M Q) : Prop :=
  ∃ entries, caller.body = .ok entries ∧ .inr callee ∈ entries

/-! ## Bodies -/

/-- With several controls the body of a rotation descends from the last of them. -/
theorem body_rotate_append_singleton {operator : M} {rest : List Q} (some : rest ≠ [])
    {last target : Q} {borrowed : List Q} :
    (Call.rotate operator (rest ++ [last]) target borrowed).body =
      .ok (descent operator rest last target borrowed) := by
  obtain ⟨first, others, rfl⟩ := List.exists_cons_of_ne_nil some
  obtain ⟨second, more, listed⟩ : ∃ second more, others ++ [last] = second :: more :=
    List.exists_cons_of_ne_nil (List.concat_ne_nil last others)
  have front : (second :: more).dropLast = others := by
    rw [← listed, List.dropLast_concat]
  have back : (second :: more).getLast (List.cons_ne_nil second more) = last := by
    simp only [← listed, List.getLast_append_singleton]
  rw [List.cons_append, listed, body, front, back]

/-- A flip that is not split lists the flips of its plan. -/
theorem body_flip_of_ne_split {controls : List Q} {target : Q} {borrowed : List Q}
    (whole : Flip.Method.choose controls.length borrowed.length ≠ .split) :
    (Call.flip controls target borrowed : Call M Q).body =
      (Flip.plan controls target borrowed).map (List.map Flip.entry) := by
  rw [body]
  fun_cases Flip.plan controls target borrowed with
  | case1 method => rw [method]; rfl
  | case2 method =>
      obtain ⟨control, rfl⟩ :=
        List.length_eq_one_iff.mp (Flip.Method.choose_eq_cnot_iff.mp method)
      rfl
  | case3 method =>
      obtain ⟨first, second, rfl⟩ :=
        List.length_eq_two.mp (Flip.Method.choose_eq_toffoli_iff.mp method)
      rfl
  | case4 method => rw [method]; rfl
  | case5 method =>
      rw [method]
      cases Flip.ladderPass controls target borrowed <;> rfl
  | case6 method => exact absurd method whole
  | case7 method => exact absurd method whole

/-- A flip that is split lists its two halves twice. -/
theorem body_flip_of_split {front back others : List Q} {pivot : Q} (target : Q)
    (split : Flip.Method.choose (front ++ back).length (pivot :: others).length = .split)
    (half : front.length = Flip.splitPoint (front ++ back).length (pivot :: others).length) :
    (Call.flip (front ++ back) target (pivot :: others) : Call M Q).body =
      .ok (halves front back pivot target others ++ halves front back pivot target others) := by
  have parts : Machine.splitAt (front ++ back)
      (Flip.splitPoint (front ++ back).length (pivot :: others).length) = .ok (front, back) := by
    rw [← half, Machine.splitAt_eq_ok (by simp), List.take_left, List.drop_left]
  simp only [body, split, parts, Flip.nth_zero, Flip.splitAt_one, bind, Except.bind, pure,
    Except.pure]

/-- A flip that is split divides its controls, and borrows the first free qubit. -/
theorem exists_body_of_split {controls : List Q} (target : Q) {borrowed : List Q}
    (split : Flip.Method.choose controls.length borrowed.length = .split) :
    ∃ front back pivot others, controls = front ++ back ∧ borrowed = pivot :: others ∧
      front.length = Flip.splitPoint controls.length borrowed.length ∧
      (Call.flip controls target borrowed : Call M Q).body =
        .ok (halves front back pivot target others ++ halves front back pivot target others) := by
  have parts := Machine.splitAt_eq_ok (Nat.le_of_lt (Flip.splitPoint_bounds split).2)
  obtain ⟨listed, half, pivot, others, rfl⟩ := Flip.exists_pivot_of_split split parts
  refine ⟨_, _, pivot, others, listed, rfl, half, ?_⟩
  have built := body_flip_of_split (M := M) target (listed ▸ split) (listed ▸ half)
  rwa [← listed] at built

/-- **Bodies succeed.** Every position that a call looks at is there. -/
theorem exists_body (call : Call M Q) : ∃ entries, call.body = .ok entries := by
  match call with
  | .rotate _ [] _ _ | .rotate _ [_] _ _ | .rotate _ (_ :: _ :: _) _ _ | .toffoli _ _ _ =>
      exact ⟨_, rfl⟩
  | .flip controls target borrowed =>
      by_cases split : Flip.Method.choose controls.length borrowed.length = .split
      · obtain ⟨_, _, _, _, _, _, _, built⟩ := exists_body_of_split (M := M) target split
        exact ⟨_, built⟩
      · obtain ⟨flips, planned, -⟩ := Flip.exists_plan_within controls target borrowed
        exact ⟨_, (body_flip_of_ne_split split).trans (congrArg _ planned)⟩

/-! ## The steps of a call -/

theorem answered_entry (flip : Flip Q) :
    answered steps (flip.entry : Entry M Q) = flip.steps := by
  cases flip <;> rfl

theorem exists_flip_steps (flips : List (Flip Q)) :
    ∃ lists : List (List (RotationStep M Q)), flips.mapM Flip.steps = .ok lists := by
  have rotates (controls : List Q) (target : Q) : ∃ steps,
      RotationStep.rotate (RootedOperator.flip : M) controls target [] = .ok steps ∧ True := by
    obtain ⟨steps, built, -⟩ := RotationStep.exists_rotate_within
      (RootedOperator.flip : M) controls target []
    exact ⟨steps, built, trivial⟩
  have each : ∀ flip ∈ flips, ∃ steps : List (RotationStep M Q),
      flip.steps = .ok steps ∧ True := by
    intro flip _
    cases flip with
    | free target => exact ⟨_, rfl, trivial⟩
    | cnot control target => exact ⟨_, rfl, trivial⟩
    | toffoli first second target => exact rotates [first, second] target
    | many controls target => exact rotates controls target
  obtain ⟨lists, expanded, -⟩ := exists_mapM each
  exact ⟨lists, expanded⟩

/-- A flip has the steps of its plan. -/
theorem exists_steps_of_plan {controls : List Q} {target : Q} {borrowed : List Q}
    {flips : List (Flip Q)} (planned : Flip.plan controls target borrowed = .ok flips) :
    ∃ lists, flips.mapM Flip.steps = .ok lists ∧
      (Call.flip controls target borrowed : Call M Q).steps = .ok lists.flatten := by
  obtain ⟨lists, expanded⟩ := exists_flip_steps (M := M) flips
  refine ⟨lists, expanded, ?_⟩
  simp only [steps, planned, expanded, bind, Except.bind, pure, Except.pure]

/-- Every call has steps. -/
theorem exists_steps (call : Call M Q) : ∃ steps, call.steps = .ok steps := by
  match call with
  | .rotate operator controls target borrowed =>
      obtain ⟨steps, built, -⟩ := RotationStep.exists_rotate_within operator controls target
        borrowed
      exact ⟨steps, built⟩
  | .toffoli first second target =>
      obtain ⟨steps, built, -⟩ := RotationStep.exists_rotate_within
        (RootedOperator.flip : M) [first, second] target []
      exact ⟨steps, built⟩
  | .flip controls target borrowed =>
      obtain ⟨flips, planned, -⟩ := Flip.exists_plan_within controls target borrowed
      obtain ⟨lists, -, built⟩ := exists_steps_of_plan (M := M) planned
      exact ⟨_, built⟩

/-- The steps of an operator are those of its single controls, of the flips of its last control and
of the operator under the other controls. -/
theorem steps_rotate_eq_expand (operator : M) (controls : List Q) (target : Q)
    (borrowed : List Q) :
    (Call.rotate operator controls target borrowed).steps =
      (Call.rotate operator controls target borrowed).expand steps := by
  rcases List.eq_nil_or_concat controls with rfl | ⟨rest, last, rfl⟩
  · exact RotationStep.rotate_nil
  · rw [List.concat_eq_append]
    by_cases some : rest = []
    · subst some
      exact RotationStep.rotate_singleton
    · obtain ⟨flips, planned, -⟩ := Flip.exists_plan_within rest last (target :: borrowed)
      obtain ⟨lists, expanded, flipped⟩ := exists_steps_of_plan (M := M) planned
      obtain ⟨remaining, remainingOk, -⟩ := RotationStep.exists_rotate_within
        (RootedOperator.root operator) rest target (last :: borrowed)
      have applied (operator : M) : (Call.rotate operator [last] target []).steps =
          .ok [.applyIf operator last target] := RotationStep.rotate_singleton
      have rested : (Call.rotate (RootedOperator.root operator) rest target
          (last :: borrowed)).steps = .ok remaining := remainingOk
      have whole : RotationStep.rotate operator (rest ++ [last]) target borrowed = _ :=
        RotationStep.rotate_append_singleton some last target borrowed
      rw [planned] at whole
      simp only [expanded, remainingOk, bind, Except.bind, pure, Except.pure] at whole
      rw [expand, body_rotate_append_singleton some]
      refine whole.trans ?_
      simp [descent, answered, flipped, applied, rested, bind, Except.bind, pure, Except.pure]

/-- The steps of a flip are those of its halves if it is split, else those of its planned flips. -/
theorem steps_flip_eq_expand (controls : List Q) (target : Q) (borrowed : List Q) :
    (Call.flip controls target borrowed : Call M Q).steps =
      (Call.flip controls target borrowed : Call M Q).expand steps := by
  obtain ⟨flips, planned, -⟩ := Flip.exists_plan_within controls target borrowed
  obtain ⟨lists, expanded, flipped⟩ := exists_steps_of_plan (M := M) planned
  by_cases split : Flip.Method.choose controls.length borrowed.length = .split
  · obtain ⟨front, back, pivot, others, ontoPivot, fromPivot, rfl, half, rfl, ontoOk, fromOk,
      rfl⟩ := Flip.exists_halves_of_plan planned split
    obtain ⟨onto, ontoExpanded, ontoSteps⟩ := exists_steps_of_plan (M := M) ontoOk
    obtain ⟨after, fromExpanded, fromSteps⟩ := exists_steps_of_plan (M := M) fromOk
    rw [flipped, expand, body_flip_of_split target split half]
    simp only [List.mapM_append, ontoExpanded, fromExpanded, bind, Except.bind, pure,
      Except.pure, Except.ok.injEq] at expanded
    subst expanded
    simp [halves, answered, ontoSteps, fromSteps, bind, Except.bind, pure, Except.pure]
  · have same : answered steps ∘ (Flip.entry : Flip Q → Entry M Q) = Flip.steps :=
      funext answered_entry
    rw [flipped, expand, body_flip_of_ne_split split, planned]
    change _ = (do return (← (flips.map Flip.entry).mapM (answered steps)).flatten)
    rw [List.mapM_map, same, expanded]
    rfl

/-- **The recursion.** The steps of a call are those of its body, whose calls are answered
in the same way. -/
theorem steps_eq_expand (call : Call M Q) : call.steps = call.expand steps := by
  match call with
  | .rotate operator controls target borrowed =>
      exact steps_rotate_eq_expand operator controls target borrowed
  | .toffoli first second target =>
      obtain ⟨built, rotated⟩ :=
        exists_steps (.rotate (RootedOperator.flip : M) [first, second] target [])
      refine rotated.trans ?_
      simp [expand, body, answered, rotated, bind, Except.bind, pure, Except.pure]
  | .flip controls target borrowed => exact steps_flip_eq_expand controls target borrowed

/-! ## Calls that are made -/

/-- The number of controls of a call. -/
def controlCount : Call M Q → Nat
  | .rotate _ controls _ _ | .flip controls _ _ => controls.length
  | .toffoli _ _ _ => 2

/-- A measure of calls. Of calls with equally many controls a flip comes before a flip under two
controls, and this one before an operator. -/
def weight : Call M Q → Nat
  | .rotate _ controls _ _ => 3 * controls.length
  | .toffoli _ _ _ => 3 * 2 + 1
  | .flip controls _ _ => 3 * controls.length + 2

/-- A flip that is split into halves. -/
def Splits (call : Call M Q) : Prop :=
  ∃ controls target borrowed, call = .flip controls target borrowed ∧
    Flip.Method.choose controls.length borrowed.length = .split

/-- A flip under three or more controls that has nothing to borrow. -/
def FallsBack (call : Call M Q) : Prop :=
  ∃ controls target, call = .flip controls target [] ∧ 3 ≤ controls.length

variable {caller callee : Call M Q}

/-- The calls of a rotation under several controls are those of its descent. -/
theorem makes_of_rotate {operator : M} {controls : List Q} {target : Q} {borrowed : List Q}
    (made : (Call.rotate operator controls target borrowed).Makes callee) :
    ∃ rest last, rest ≠ [] ∧ controls = rest ++ [last] ∧
      .inr callee ∈ descent operator rest last target borrowed := by
  obtain ⟨entries, built, member⟩ := made
  rcases List.eq_nil_or_concat controls with rfl | ⟨rest, last, rfl⟩
  · cases built
    simp at member
  · rw [List.concat_eq_append] at built ⊢
    by_cases some : rest = []
    · subst some
      cases built
      simp at member
    · rw [body_rotate_append_singleton some] at built
      cases built
      exact ⟨rest, last, some, rfl, member⟩

/-- What a flip calls: a planned flip under two or more controls, or a half of itself. -/
theorem makes_of_flip {controls : List Q} {target : Q} {borrowed : List Q}
    (made : (Call.flip controls target borrowed).Makes callee) :
    (Flip.Method.choose controls.length borrowed.length ≠ .split ∧
      ∃ flips flip, Flip.plan controls target borrowed = .ok flips ∧ flip ∈ flips ∧
        .inr callee = flip.entry) ∨
    (Flip.Method.choose controls.length borrowed.length = .split ∧
      ∃ front back pivot others, controls = front ++ back ∧ borrowed = pivot :: others ∧
        front.length = Flip.splitPoint controls.length borrowed.length ∧
        .inr callee ∈ (halves front back pivot target others : List (Entry M Q))) := by
  obtain ⟨entries, built, member⟩ := made
  by_cases split : Flip.Method.choose controls.length borrowed.length = .split
  · obtain ⟨front, back, pivot, others, listed, borrows, half, same⟩ :=
      exists_body_of_split (M := M) target split
    cases same.symm.trans built
    exact .inr ⟨split, front, back, pivot, others, listed, borrows, half,
      (List.mem_append.mp member).elim id id⟩
  · obtain ⟨flips, planned, -⟩ := Flip.exists_plan_within controls target borrowed
    rw [body_flip_of_ne_split split, planned] at built
    cases built
    obtain ⟨flip, listed, same⟩ := List.mem_map.mp member
    exact .inl ⟨split, flips, flip, planned, listed, same.symm⟩

/-- A planned flip that becomes a call has as many controls as the call. -/
theorem cases_of_entry {flip : Flip Q} (same : .inr callee = (flip.entry : Entry M Q)) :
    callee.controlCount = flip.controls.length ∧
      ((∃ first second target, callee = .toffoli first second target) ∨
        ∃ controls target, callee = .rotate RootedOperator.flip controls target []) := by
  cases flip with
  | free target => cases same
  | cnot control target => cases same
  | toffoli first second target =>
      cases same
      exact ⟨rfl, .inl ⟨_, _, _, rfl⟩⟩
  | many controls target =>
      cases same
      exact ⟨rfl, .inr ⟨_, _, rfl⟩⟩

/-- Calls get lighter, and have no more controls than the call that makes them. -/
theorem weight_lt_of_makes (made : caller.Makes callee) :
    callee.weight < caller.weight ∧ callee.controlCount ≤ caller.controlCount := by
  match caller with
  | .rotate operator controls target borrowed =>
      obtain ⟨rest, last, some, rfl, member⟩ := makes_of_rotate made
      have positive := List.length_pos_iff.mpr some
      simp only [descent, List.mem_cons, Sum.inr.injEq, List.not_mem_nil, or_false] at member
      rcases member with rfl | rfl | rfl | rfl | rfl
      all_goals
        simp only [weight, controlCount, List.length_append, List.length_singleton]
        omega
  | .toffoli first second target =>
      obtain ⟨entries, built, member⟩ := made
      cases built
      cases List.mem_singleton.mp member
      exact ⟨Nat.lt_succ_self 6, Nat.le_refl 2⟩
  | .flip controls target borrowed =>
      rcases makes_of_flip made with ⟨-, flips, flip, planned, listed, same⟩ |
        ⟨split, front, back, pivot, others, rfl, rfl, half, member⟩
      · have few := Flip.controls_length_le_of_plan planned listed
        obtain ⟨count, ⟨_, _, _, rfl⟩ | ⟨_, _, rfl⟩⟩ := cases_of_entry same
        all_goals
          simp only [weight, controlCount] at count ⊢
          omega
      · have bounds := Flip.splitPoint_bounds split
        simp only [halves, List.mem_cons, Sum.inr.injEq, List.not_mem_nil, or_false] at member
        rw [← half, List.length_append] at bounds
        rcases member with rfl | rfl
        all_goals
          simp only [weight, controlCount, List.length_append, List.length_singleton]
          omega

/-- **Calls end.** There is no infinite sequence of calls each of which makes the next. -/
theorem wellFounded_makes : WellFounded fun callee caller : Call M Q => caller.Makes callee :=
  Subrelation.wf (fun made => (weight_lt_of_makes made).1) (measure weight).wf

/-- The bodies leave no choice of the steps. -/
theorem eq_steps_of_expand {answer : Call M Q → Except Fault (List (RotationStep M Q))}
    (recursion : ∀ call, answer call = call.expand answer) : answer = steps := by
  funext call
  induction call using (wellFounded_makes (M := M) (Q := Q)).induction with
  | _ call ih =>
      obtain ⟨entries, built⟩ := exists_body call
      have each : entries.mapM (answered answer) = entries.mapM (answered steps) := by
        refine mapM_congr fun entry member => ?_
        cases entry with
        | inl step => rfl
        | inr callee => exact ih callee ⟨entries, built, member⟩
      rw [recursion, steps_eq_expand, expand, expand, built]
      change (do return (← entries.mapM (answered answer)).flatten) = _
      rw [each]
      rfl

/-! ## Splits and qubits to borrow -/

/-- A flip is only ever called with a qubit to borrow. -/
theorem ne_nil_of_makes_flip {controls : List Q} {target : Q} {borrowed : List Q}
    (made : caller.Makes (.flip controls target borrowed)) : borrowed ≠ [] := by
  match caller with
  | .rotate operator _ _ _ =>
      obtain ⟨rest, last, -, rfl, member⟩ := makes_of_rotate made
      simp only [descent, List.mem_cons, Sum.inr.injEq, reduceCtorEq, List.not_mem_nil, or_false,
        false_or] at member
      rcases member with same | same
      all_goals
        cases same
        exact List.cons_ne_nil _ _
  | .toffoli first second target =>
      obtain ⟨entries, built, member⟩ := made
      cases built
      cases List.mem_singleton.mp member
  | .flip _ _ _ =>
      rcases makes_of_flip made with ⟨-, flips, flip, -, -, same⟩ |
        ⟨split, front, back, pivot, others, rfl, rfl, half, member⟩
      · obtain ⟨-, ⟨_, _, _, ⟨⟩⟩ | ⟨_, _, ⟨⟩⟩⟩ := cases_of_entry same
      · have bounds := Flip.splitPoint_bounds split
        have occupied : front ≠ [] := List.ne_nil_of_length_pos (by omega)
        simp only [halves, List.mem_cons, Sum.inr.injEq, List.not_mem_nil, or_false] at member
        rcases member with same | same
        all_goals
          cases same
          simp [occupied]

/-- **Fallbacks.** What a flip with a qubit to borrow comes to call never lacks one. -/
theorem not_fallsBack_of_reach {call : Call M Q} {controls : List Q} {target : Q}
    {borrowed : List Q} (some : borrowed ≠ [])
    (reached : Relation.ReflTransGen Makes (.flip controls target borrowed) call) :
    ¬call.FallsBack := by
  rintro ⟨_, _, rfl, -⟩
  rcases reached.cases_tail with same | ⟨caller, -, made⟩
  · cases same
    exact some rfl
  · exact ne_nil_of_makes_flip made rfl

/-- No call reaches another with more controls. -/
theorem controlCount_le_of_reach {call : Call M Q}
    (reached : Relation.ReflTransGen Makes caller call) :
    call.controlCount ≤ caller.controlCount := by
  induction reached with
  | refl => exact Nat.le_refl _
  | tail _ made ih => exact Nat.le_trans (weight_lt_of_makes made).2 ih

omit [RootedOperator M] in
/-- Only flips with more than two controls are split. -/
theorem Splits.lt_controlCount (splits : caller.Splits) : 2 < caller.controlCount := by
  obtain ⟨controls, target, borrowed, rfl, method⟩ := splits
  have bounds := Flip.Method.choose_eq_split_iff.mp method
  simp only [controlCount]
  omega

/-- The halves of a flip borrow each other's qubits, so that they are not split. -/
theorem Splits.half_cases {half : Call M Q} (splits : caller.Splits) (made : caller.Makes half) :
    ¬half.Splits ∧ ∃ controls target borrowed, half = .flip controls target borrowed ∧
      borrowed ≠ [] := by
  obtain ⟨controls, target, borrowed, rfl, method⟩ := splits
  rcases makes_of_flip made with ⟨whole, -⟩ |
    ⟨-, front, back, pivot, others, rfl, rfl, size, member⟩
  · exact absurd method whole
  · rw [List.length_append, List.length_cons] at size
    have apart := Flip.choose_halves_ne_split size
    simp only [halves, List.mem_cons, Sum.inr.injEq, List.not_mem_nil, or_false] at member
    rcases member with rfl | rfl
    · refine ⟨?_, _, _, _, rfl, ne_nil_of_makes_flip made⟩
      rintro ⟨_, _, _, ⟨⟩, again⟩
      exact apart.1 (by simpa using again)
    · refine ⟨?_, _, _, _, rfl, ne_nil_of_makes_flip made⟩
      rintro ⟨_, _, _, ⟨⟩, again⟩
      exact apart.2 (by simpa using again)

/-- **Splits.** Neither a half of a flip nor anything that it comes to call is split again: a
flip that is not split calls flips and operators under at most two controls. -/
theorem Splits.not_splits_of_reach {half call : Call M Q} (splits : caller.Splits)
    (made : caller.Makes half) (reached : Relation.ReflTransGen Makes half call) :
    ¬call.Splits := by
  obtain ⟨whole, controls, target, borrowed, rfl, some⟩ := splits.half_cases made
  rcases reached.cases_head with rfl | ⟨callee, called, later⟩
  · exact whole
  · intro again
    have few : callee.controlCount ≤ 2 := by
      rcases makes_of_flip called with ⟨-, flips, flip, planned, listed, same⟩ | ⟨split, -⟩
      · rw [(cases_of_entry same).1]
        exact Flip.controls_length_le_two_of_plan some planned listed
      · exact absurd ⟨_, _, _, rfl, split⟩ whole
    have many := again.lt_controlCount
    have fewer := controlCount_le_of_reach later
    omega

end Call

/-! ## Operations -/

section Operations

variable {R : Type} [Scalar R]

/-- Every operator of a call is a 2×2 matrix. -/
def Call.Square : Call (Unitary R) Q → Prop
  | .rotate operator _ _ _ => operator.rows = 2 ∧ operator.cols = 2
  | .toffoli _ _ _ | .flip _ _ _ => True

/-- Roots and adjoints of 2×2 matrices are such matrices, so that their corners are there. -/
theorem Call.Square.of_makes {caller callee : Call (Unitary R) Q} (square : caller.Square)
    (made : caller.Makes callee) : callee.Square := by
  match caller with
  | .rotate operator _ _ _ =>
      obtain ⟨rest, last, -, rfl, member⟩ := makes_of_rotate made
      simp only [descent, List.mem_cons, Sum.inr.injEq, List.not_mem_nil, or_false] at member
      rcases member with rfl | rfl | rfl | rfl | rfl
      · exact square
      · trivial
      · exact square.symm
      · trivial
      · exact square
  | .toffoli first second target =>
      obtain ⟨entries, built, member⟩ := made
      cases built
      cases List.mem_singleton.mp member
      exact ⟨rfl, rfl⟩
  | .flip _ _ _ =>
      rcases makes_of_flip made with ⟨-, flips, flip, -, -, same⟩ |
        ⟨-, front, back, pivot, others, -, -, -, member⟩
      · obtain ⟨-, ⟨_, _, _, rfl⟩ | ⟨_, _, rfl⟩⟩ := cases_of_entry same
        · trivial
        · exact ⟨rfl, rfl⟩
      · simp only [halves, List.mem_cons, Sum.inr.injEq, List.not_mem_nil, or_false] at member
        rcases member with rfl | rfl <;> trivial

/-- The operations of a call. Turns within the tolerance of zero are left out. -/
def Call.operations (tolerance : R) (call : Call (Unitary R) Qudit) :
    GateResult R (List (Operation R)) := do
  let steps ← call.steps
  return (← (steps.flatMap (RotationStep.pulses tolerance)).mapM Pulse.operation?).filterMap id

/-- A matrix is synthesized by the call for it. -/
theorem synthesize_eq_operations {matrix : Unitary R}
    (corner : 2 ≤ matrix.rows ∧ 2 ≤ matrix.cols) (controls : List Qudit) (target : Qudit)
    (tolerance : R) :
    synthesize matrix controls target tolerance =
      (Call.rotate matrix controls target []).operations tolerance := by
  have present : matrix.requireCorner = .ok () := if_pos corner
  cases controls with
  | nil => rfl
  | cons control controls =>
      simp only [synthesize, present]
      rfl

/-- A pulse is not refused by a fault. -/
theorem Pulse.operation?_ne_fault {pulse : Pulse R Qudit} {fault : Fault} :
    pulse.operation? ≠ .error (.fault fault) := by
  have placed {gate : Gate R} {qudits : List Qudit} :
      (do return some (← gate.on qudits)) ≠ (.error (.fault fault) : GateResult R _) := by
    intro failed
    rcases bind_eq_error_iff.mp failed with refused | ⟨_, _, built⟩
    · exact Gate.on_ne_fault refused
    · cases built
  cases pulse with
  | matrix entries target =>
      obtain ⟨gate?, accepted⟩ := Gate.exists_ofMatrix_qubit entries
      have lifted := liftFault_eq_ok_iff (R := R).mpr accepted
      rw [operation?, lifted]
      cases gate? with
      | none =>
          intro failed
          cases failed
      | some gate => exact placed
  | flip target => exact placed
  | cnot control target => exact placed
  | turn family angle target => exact placed

/-- Calls are refused for what their qudits are, and never for where the construction looks. -/
theorem Call.operations_ne_fault {tolerance : R} {call : Call (Unitary R) Qudit}
    {fault : Fault} : call.operations tolerance ≠ .error (.fault fault) := by
  intro failed
  obtain ⟨steps, built⟩ := exists_steps call
  rw [operations, liftFault_eq_ok_iff.mpr built] at failed
  rcases bind_eq_error_iff.mp failed with unbuilt | ⟨_, _, rest⟩
  · cases unbuilt
  · rcases bind_eq_error_iff.mp rest with refused | ⟨_, _, kept⟩
    · obtain ⟨pulse, -, unplaced⟩ := exists_of_mapM_eq_error refused
      exact Pulse.operation?_ne_fault unplaced
    · cases kept

/-- The calls that are reached have matrices on one qubit as well. -/
theorem Call.Square.of_reach {caller callee : Call (Unitary R) Q} (square : caller.Square)
    (reached : Relation.ReflTransGen Call.Makes caller callee) : callee.Square := by
  induction reached with
  | refl => exact square
  | tail _ made ih => exact ih.of_makes made

/-- **Calls end within bounds.** For lists of any lengths, no sequence of calls goes on forever,
every body finds what it looks for, and the bodies have one solution, the steps of the calls. What
is called for a 2×2 matrix has 2×2 matrices only. A call gives operations or refuses a qudit; it
never fails in another way, and a matrix is synthesized by the call for it. A flip with something
to borrow never comes to a flip under three or more controls that has nothing to borrow, and no
half of a flip is split again. -/
theorem calls_end_within_bounds :
    (WellFounded fun callee caller : Call (Unitary R) Qudit => caller.Makes callee) ∧
    (∀ call : Call (Unitary R) Qudit, ∃ entries, call.body = .ok entries) ∧
    (∀ answer : Call (Unitary R) Qudit → Except Fault (List (RotationStep (Unitary R) Qudit)),
      (∀ call, answer call = call.expand answer) ↔ answer = Call.steps) ∧
    (∀ caller callee : Call (Unitary R) Qudit, caller.Square →
      Relation.ReflTransGen Call.Makes caller callee → callee.Square) ∧
    (∀ (call : Call (Unitary R) Qudit) (tolerance : R) (fault : Fault),
      call.operations tolerance ≠ .error (.fault fault)) ∧
    (∀ (matrix : Unitary R) (controls : List Qudit) (target : Qudit) (tolerance : R),
      matrix.rows = 2 → matrix.cols = 2 →
      synthesize matrix controls target tolerance =
        (Call.rotate matrix controls target []).operations tolerance) ∧
    (∀ (controls : List Qudit) (target : Qudit) (borrowed : List Qudit)
      (call : Call (Unitary R) Qudit), borrowed ≠ [] →
      Relation.ReflTransGen Call.Makes (.flip controls target borrowed) call →
      ¬call.FallsBack) ∧
    ∀ caller half call : Call (Unitary R) Qudit, caller.Splits → caller.Makes half →
      Relation.ReflTransGen Call.Makes half call → ¬call.Splits := by
  refine ⟨Call.wellFounded_makes, Call.exists_body, ?_, ?_, ?_, ?_, ?_, ?_⟩
  · intro answer
    constructor
    · exact Call.eq_steps_of_expand
    · rintro rfl
      exact Call.steps_eq_expand
  · intro caller callee square reached
    exact square.of_reach reached
  · intro call tolerance fault
    exact Call.operations_ne_fault
  · intro matrix controls target tolerance rows cols
    apply synthesize_eq_operations
    exact ⟨rows.ge, cols.ge⟩
  · intro controls target borrowed call some reached
    exact Call.not_fallsBack_of_reach some reached
  · intro caller half call splits made reached
    exact splits.not_splits_of_reach made reached

/-- A flip under five controls with one qubit to borrow is split, and its first half is not. -/
theorem calls_end_within_bounds_of_split :
    let front : Call (Unitary Float) Qudit :=
      .flip (Qudit.qubits 3) (.qubit 6) [.qubit 3, .qubit 4, .qubit 5]
    let whole : Call (Unitary Float) Qudit := .flip (Qudit.qubits 5) (.qubit 5) [.qubit 6]
    whole.Splits ∧ whole.Makes front ∧ front.Square ∧ ¬front.Splits ∧ ¬front.FallsBack ∧
      synthesize Unitary.flip (Qudit.qubits 5) (.qubit 5) (0 : Float) =
        (Call.rotate Unitary.flip (Qudit.qubits 5) (.qubit 5) []).operations 0 := by
  intro front whole
  have splits : whole.Splits := ⟨_, _, _, rfl, rfl⟩
  have made : whole.Makes front := ⟨_, rfl, .head _⟩
  obtain ⟨-, -, -, square, -, synthesized, occupied, halved⟩ :=
    calls_end_within_bounds (R := Float)
  refine ⟨splits, made, ?_, ?_, ?_, ?_⟩
  · exact square whole front trivial (.single made)
  · exact halved whole front front splits made .refl
  · exact occupied _ _ _ front (List.cons_ne_nil _ _) (.single made)
  · exact synthesized _ _ _ _ rfl rfl

end Operations

end QuditCircuits
