import Mathlib.Logic.Function.Basic
import QuditCircuits.Synthesis.Flip

/-!
# The action of flips

A flip acts on the basis states of qubits, which are assignments of truth values. A flip
of different qubits undoes itself, so flips undo themselves in reverse order. Two rounds
of a flip of a pivot and of a flip that the pivot controls flip the target under the
controls of both (`Flip.act_split`).
-/

namespace QuditCircuits

theorem all_update_of_notMem {Q : Type} [DecidableEq Q] {qubits : List Q} {qubit : Q}
    {state : Q → Bool} {value : Bool} (absent : qubit ∉ qubits) :
    qubits.all (Function.update state qubit value) = qubits.all state := by
  rw [Bool.eq_iff_iff, List.all_eq_true, List.all_eq_true]
  refine forall₂_congr fun other member => ?_
  have different : other ≠ qubit := by
    rintro rfl
    exact absent member
  rw [Function.update_of_ne different]

namespace Flip

variable {Q : Type} [DecidableEq Q]

/-- The basis state after a flip: its target changes if all controls are at level one. -/
def act (flip : Flip Q) (state : Q → Bool) : Q → Bool :=
  Function.update state flip.target (state flip.target ^^ flip.controls.all state)

/-- The basis state after a list of flips. -/
def run (flips : List (Flip Q)) (state : Q → Bool) : Q → Bool :=
  flips.foldl (fun current flip => flip.act current) state

@[simp] theorem run_nil {state : Q → Bool} : run [] state = state := rfl

@[simp] theorem run_cons {flip : Flip Q} {flips : List (Flip Q)} {state : Q → Bool} :
    run (flip :: flips) state = run flips (flip.act state) := rfl

@[simp] theorem run_append {first second : List (Flip Q)} {state : Q → Bool} :
    run (first ++ second) state = run second (run first state) :=
  List.foldl_append

/-- A flip exchanges its target if all its controls are set. -/
theorem act_target {flip : Flip Q} {state : Q → Bool} :
    flip.act state flip.target = (state flip.target ^^ flip.controls.all state) :=
  Function.update_self _ _ _

/-- A flip changes nothing but its target. -/
theorem act_of_ne {flip : Flip Q} {state : Q → Bool} {qubit : Q} (other : qubit ≠ flip.target) :
    flip.act state qubit = state qubit :=
  Function.update_of_ne other _ _

/-- A flip is its own inverse. -/
theorem act_act {flip : Flip Q} (distinct : (flip.controls ++ [flip.target]).Nodup)
    (state : Q → Bool) : flip.act (flip.act state) = state := by
  have outside : flip.target ∉ flip.controls := by grind
  simp [act, all_update_of_notMem outside]

/-- Flips undo themselves in reverse order. -/
theorem run_reverse_run {flips : List (Flip Q)}
    (distinct : ∀ flip ∈ flips, (flip.controls ++ [flip.target]).Nodup) (state : Q → Bool) :
    run flips.reverse (run flips state) = state := by
  induction flips generalizing state with
  | nil => rfl
  | cons flip flips ih =>
      rw [List.reverse_cons, run_append, run_cons, run_cons, run_nil,
        ih fun other member => distinct other (List.mem_cons_of_mem _ member),
        act_act (distinct flip List.mem_cons_self)]

/-- Two rounds of a flip of a pivot and one that it controls flip the target under both
lists of controls, whatever the pivot was. -/
theorem act_split {front back : List Q} {pivot target : Q} (pivotFront : pivot ∉ front)
    (pivotBack : pivot ∉ back) (targetFront : target ∉ front) (targetBack : target ∉ back)
    (apart : pivot ≠ target) (state : Q → Bool) :
    run [many front pivot, many (back ++ [pivot]) target, many front pivot,
      many (back ++ [pivot]) target] state = (many (front ++ back) target).act state := by
  funext qubit
  simp only [run_cons, run_nil, act, Flip.target, Flip.controls, List.all_append, List.all_cons,
    List.all_nil, Bool.and_true, all_update_of_notMem pivotFront, all_update_of_notMem pivotBack,
    all_update_of_notMem targetFront, all_update_of_notMem targetBack, Function.update_self,
    Function.update_of_ne apart, Function.update_of_ne apart.symm]
  rcases eq_or_ne qubit target with rfl | notTarget
  · simp only [Function.update_self]
    cases state qubit <;> cases state pivot <;> cases front.all state <;> cases back.all state <;>
      rfl
  · rcases eq_or_ne qubit pivot with rfl | notPivot
    · simp [Function.update_of_ne notTarget]
    · simp [Function.update_of_ne notTarget, Function.update_of_ne notPivot]

end Flip

end QuditCircuits
