import Mathlib.Data.PFun
import Mathlib.Logic.Relation
import QuditCircuits.Proofs.Decomposition.Rank

/-!
# Decomposition with a stack

Operations are fully decomposed either by recursion or by a loop that keeps those still to be
looked at on a stack. A turn of the loop keeps what the recursion makes of a state
(`Worklist.outcome_of_turn`), and because rules lower the rank the turns come to an end
(`Worklist.exists_stopped`). So the loop ends with the result of the recursion.
-/

namespace QuditCircuits

variable {R : Type} [Scalar R] {settings : DecompositionSettings R (GateResult R)}

/-! ## The recursion -/

/-- Everything an operation is decomposed into. -/
def Operation.expansion (settings : DecompositionSettings R (GateResult R))
    (operation : Operation R) : GateResult R (List (Operation R)) :=
  operation.decomposeWithin settings (operation.gate.rank + 1)

/-- One level down, the parts of an operation may be expanded in any way that agrees. -/
theorem Operation.decomposeWithin_succ {operation : Operation R} {depth : Nat}
    {expand : Operation R → GateResult R (List (Operation R))}
    (same : ∀ parts, operation.decompose settings = .ok (some parts) →
      ∀ part ∈ parts, part.decomposeWithin settings depth = expand part) :
    operation.decomposeWithin settings (depth + 1) = (do
      match ← operation.decompose settings with
      | none => return [operation]
      | some parts => return (← parts.mapM expand).flatten) := by
  rw [decomposeWithin]
  cases decomposed : operation.decompose settings with
  | error reason => rfl
  | ok parts? =>
      cases parts? with
      | none => rfl
      | some parts =>
          change (do return (← parts.mapM (decomposeWithin settings depth)).flatten) = _
          rw [mapM_congr (same parts decomposed)]
          rfl

/-- Depths beyond the rank make no difference. -/
theorem Operation.decomposeWithin_eq (default : settings.synthesize = synthesize)
    {operation : Operation R} {depth other : Nat} (below : operation.Below depth)
    (otherBelow : operation.Below other) :
    operation.decomposeWithin settings depth = operation.decomposeWithin settings other := by
  induction depth generalizing operation other with
  | zero => exact absurd below.rank (Nat.not_lt_zero _)
  | succ depth ih =>
      cases other with
      | zero => exact absurd otherBelow.rank (Nat.not_lt_zero _)
      | succ other =>
          apply decomposeWithin_succ
          intro parts decomposed part member
          have smaller := Gate.below_of_decompose default below.wellFormed decomposed part member
          exact ih (smaller.mono (Nat.le_of_lt_succ below.rank))
            (smaller.mono (Nat.le_of_lt_succ otherBelow.rank))

/-- The parts of an operation are expanded in its place. -/
theorem Operation.expansion_eq (default : settings.synthesize = synthesize)
    {operation : Operation R} (wellFormed : operation.gate.WellFormed) :
    operation.expansion settings = (do
      match ← operation.decompose settings with
      | none => return [operation]
      | some parts => decomposeAll settings parts) := by
  apply decomposeWithin_succ
  intro parts decomposed part member
  have smaller := Gate.below_of_decompose default wellFormed decomposed part member
  exact decomposeWithin_eq default smaller ⟨Nat.lt_succ_self _, smaller.wellFormed⟩

/-- The first operation is expanded before the others. -/
theorem decomposeAll_cons {operation : Operation R} {operations : List (Operation R)} :
    decomposeAll settings (operation :: operations) = (do
      return (← operation.expansion settings) ++ (← decomposeAll settings operations)) := by
  simp only [decomposeAll, Operation.expansion, List.mapM_cons, bind_assoc, pure_bind,
    List.flatten_cons]

theorem decomposeAll_append {operations more : List (Operation R)} :
    decomposeAll settings (operations ++ more) = (do
      return (← decomposeAll settings operations) ++ (← decomposeAll settings more)) := by
  simp only [decomposeAll, List.mapM_append, bind_assoc, pure_bind, List.flatten_append]

/-- Operations that no rule applies to are their own decomposition. -/
theorem decomposeAll_of_final {operations : List (Operation R)}
    (final : ∀ operation ∈ operations, operation.decompose settings = .ok none) :
    decomposeAll settings operations = .ok operations := by
  induction operations with
  | nil => rfl
  | cons operation operations ih =>
      obtain ⟨head, rest⟩ := List.forall_mem_cons.mp final
      rw [decomposeAll_cons, Operation.expansion, Operation.decomposeWithin, head, ih rest]
      rfl

/-! ## The loop -/

/-- One turn of the loop takes the last operation off the stack. Parts that replace it go back in
reverse order. -/
def decomposeTurn (settings : DecompositionSettings R (GateResult R)) :
    List (Operation R) × List (Operation R) →
      GateResult R (List (Operation R)) ⊕ (List (Operation R) × List (Operation R))
  | (finished, stack) =>
      match stack.getLast? with
      | none => .inl (.ok finished)
      | some operation =>
          match operation.decompose settings with
          | .error reason => .inl (.error reason)
          | .ok none => .inr (finished ++ [operation], stack.dropLast)
          | .ok (some parts) => .inr (finished, stack.dropLast ++ parts.reverse)

/-- The loop over a stack of operations, for as many turns as it takes. There is no value if it
does not end. -/
def decomposeStack (settings : DecompositionSettings R (GateResult R))
    (finished stack : List (Operation R)) : Part (GateResult R (List (Operation R))) :=
  PFun.fix (fun state => Part.some (decomposeTurn settings state)) (finished, stack)

/-- The operations that no rule applies to, and those still to be looked at, in order. -/
structure Worklist (R : Type) where
  finished : List (Operation R)
  pending : List (Operation R)

namespace Worklist

/-- Nothing is finished at first. -/
def start (operations : List (Operation R)) : Worklist R :=
  ⟨[], operations⟩

/-- A turn of the loop looks at the next operation. -/
inductive Turn (settings : DecompositionSettings R (GateResult R)) :
    Worklist R → Worklist R → Prop
  | finish {finished pending : List (Operation R)} {operation : Operation R}
      (final : operation.decompose settings = .ok none) :
      Turn settings ⟨finished, operation :: pending⟩ ⟨finished ++ [operation], pending⟩
  | replace {finished pending parts : List (Operation R)} {operation : Operation R}
      (apart : operation.decompose settings = .ok (some parts)) :
      Turn settings ⟨finished, operation :: pending⟩ ⟨finished, parts ++ pending⟩

/-- The loop stops when nothing is left, or when the next operation is refused. -/
inductive Stopped (settings : DecompositionSettings R (GateResult R)) : Worklist R → Prop
  | done {finished : List (Operation R)} : Stopped settings ⟨finished, []⟩
  | refused {finished pending : List (Operation R)} {operation : Operation R}
      {reason : GateError R} (failure : operation.decompose settings = .error reason) :
      Stopped settings ⟨finished, operation :: pending⟩

/-- What the loop makes of a state. -/
def loop (settings : DecompositionSettings R (GateResult R)) (state : Worklist R) :
    Part (GateResult R (List (Operation R))) :=
  decomposeStack settings state.finished state.pending.reverse

/-- What the recursion makes of a state. -/
def outcome (settings : DecompositionSettings R (GateResult R)) (state : Worklist R) :
    GateResult R (List (Operation R)) := do
  return state.finished ++ (← decomposeAll settings state.pending)

/-- The operations still to be looked at have well-formed gates. -/
def WellFormed (state : Worklist R) : Prop :=
  ∀ operation ∈ state.pending, operation.gate.WellFormed

/-- A turn keeps all gates well-formed. -/
theorem wellFormed_of_turn (default : settings.synthesize = synthesize) {state next : Worklist R}
    (wellFormed : state.WellFormed) (turn : Turn settings state next) : next.WellFormed := by
  cases turn with
  | finish final => exact (List.forall_mem_cons.mp wellFormed).2
  | replace apart =>
      obtain ⟨head, rest⟩ := List.forall_mem_cons.mp wellFormed
      refine List.forall_mem_append.mpr ⟨?_, rest⟩
      intro part member
      exact (Gate.below_of_decompose default head apart part member).wellFormed

/-- The loop takes the turns. -/
theorem loop_of_turn {state next : Worklist R} (turn : Turn settings state next) :
    state.loop settings = next.loop settings := by
  apply PFun.fix_fwd_eq
  apply Part.mem_some_iff.mpr
  cases turn with
  | finish final =>
      simp only [decomposeTurn, List.reverse_cons, List.getLast?_concat, List.dropLast_concat,
        final]
  | replace apart =>
      simp only [decomposeTurn, List.reverse_cons, List.getLast?_concat, List.dropLast_concat,
        List.reverse_append, apart]

/-- A turn keeps what the recursion makes of the state. -/
theorem outcome_of_turn (default : settings.synthesize = synthesize) {state next : Worklist R}
    (wellFormed : state.WellFormed) (turn : Turn settings state next) :
    state.outcome settings = next.outcome settings := by
  cases turn with
  | @finish finished pending operation final =>
      obtain ⟨head, _⟩ := List.forall_mem_cons.mp wellFormed
      simp only [outcome, decomposeAll_cons, Operation.expansion_eq default head, final]
      cases decomposeAll settings pending with
      | error reason => rfl
      | ok others => exact congrArg Except.ok (List.append_assoc finished [operation] others).symm
  | @replace finished pending parts operation apart =>
      obtain ⟨head, _⟩ := List.forall_mem_cons.mp wellFormed
      simp only [outcome, decomposeAll_cons, Operation.expansion_eq default head, apart,
        decomposeAll_append]
      rfl

theorem outcome_done {finished : List (Operation R)} :
    outcome settings ⟨finished, []⟩ = .ok finished :=
  congrArg Except.ok (List.append_nil finished)

/-- The outcome is the reason for which the next operation is refused. -/
theorem outcome_refused (default : settings.synthesize = synthesize)
    {finished pending : List (Operation R)} {operation : Operation R} {reason : GateError R}
    (wellFormed : operation.gate.WellFormed)
    (failure : operation.decompose settings = .error reason) :
    outcome settings ⟨finished, operation :: pending⟩ = .error reason := by
  simp only [outcome, decomposeAll_cons, Operation.expansion_eq default wellFormed, failure]
  rfl

/-- The outcome of the initial worklist is the recursive decomposition. -/
theorem outcome_start {operations : List (Operation R)} :
    (start operations).outcome settings = decomposeAll settings operations := by
  change (do return [] ++ (← decomposeAll settings operations)) = _
  cases decomposeAll settings operations <;> rfl

theorem loop_done {finished : List (Operation R)} :
    loop settings ⟨finished, []⟩ = Part.some (.ok finished) :=
  Part.eq_some_iff.mpr (PFun.fix_stop (Part.mem_some_iff.mpr rfl))

theorem loop_refused {finished pending : List (Operation R)} {operation : Operation R}
    {reason : GateError R} (failure : operation.decompose settings = .error reason) :
    loop settings ⟨finished, operation :: pending⟩ = Part.some (.error reason) := by
  apply Part.eq_some_iff.mpr
  apply PFun.fix_stop
  apply Part.mem_some_iff.mpr
  simp only [decomposeTurn, List.reverse_cons, List.getLast?_concat, failure]

/-- The loop ends at once where it stops, with what the recursion makes of the state. -/
theorem loop_of_stopped (default : settings.synthesize = synthesize) {state : Worklist R}
    (wellFormed : state.WellFormed) (stopped : Stopped settings state) :
    state.loop settings = Part.some (state.outcome settings) := by
  cases stopped with
  | done => rw [outcome_done, loop_done]
  | refused failure =>
      obtain ⟨head, _⟩ := List.forall_mem_cons.mp wellFormed
      rw [outcome_refused default head failure, loop_refused failure]

/-! ## Runs of the loop -/

/-- Any number of turns. -/
def Run (settings : DecompositionSettings R (GateResult R)) : Worklist R → Worklist R → Prop :=
  Relation.ReflTransGen (Turn settings)

/-- A run leads to where the loop stops. -/
def Stops (settings : DecompositionSettings R (GateResult R)) (state : Worklist R) : Prop :=
  ∃ last, Run settings state last ∧ Stopped settings last

/-- If the loop stops after a turn, it stops before it. -/
theorem Stops.of_turn {state next : Worklist R} (turn : Turn settings state next)
    (stops : next.Stops settings) : state.Stops settings := by
  obtain ⟨last, run, stopped⟩ := stops
  exact ⟨last, Relation.ReflTransGen.head turn run, stopped⟩

/-- By induction on the rank: the parts that replace an operation have smaller rank, so the
loop gets past each of them to what was pending behind the operation. -/
theorem stops_cons (default : settings.synthesize = synthesize) {pending : List (Operation R)}
    (behind : ∀ finished, Stops settings ⟨finished, pending⟩) (bound : Nat)
    {operation : Operation R} (below : operation.Below bound) (finished : List (Operation R)) :
    Stops settings ⟨finished, operation :: pending⟩ := by
  induction bound generalizing operation finished pending with
  | zero => exact absurd below.rank (Nat.not_lt_zero _)
  | succ bound ih =>
      cases decomposed : operation.decompose settings with
      | error reason => exact ⟨_, Relation.ReflTransGen.refl, .refused decomposed⟩
      | ok parts? =>
          cases parts? with
          | none => exact .of_turn (.finish decomposed) (behind _)
          | some parts =>
              have smaller : ∀ part ∈ parts, part.Below bound := by
                intro part member
                exact (Gate.below_of_decompose default below.wellFormed decomposed part
                  member).mono (Nat.le_of_lt_succ below.rank)
              -- Behind each part stand the later parts, and then what was pending before.
              have beforeParts : ∀ finished, Stops settings ⟨finished, parts ++ pending⟩ := by
                clear decomposed
                induction parts with
                | nil => exact behind
                | cons part parts rest =>
                    obtain ⟨head, others⟩ := List.forall_mem_cons.mp smaller
                    intro finished
                    exact ih (rest others) head finished
              exact .of_turn (.replace decomposed) (beforeParts finished)

/-- The loop always stops. -/
theorem stops (default : settings.synthesize = synthesize) {state : Worklist R}
    (wellFormed : state.WellFormed) : state.Stops settings := by
  obtain ⟨finished, pending⟩ := state
  induction pending generalizing finished with
  | nil => exact ⟨_, Relation.ReflTransGen.refl, .done⟩
  | cons operation pending ih =>
      obtain ⟨head, rest⟩ := List.forall_mem_cons.mp wellFormed
      exact stops_cons default (fun finished => ih finished rest) _
        ⟨Nat.lt_succ_self _, head⟩ finished

/-- What every turn keeps, a run keeps. -/
theorem run_keeps (default : settings.synthesize = synthesize) {state last : Worklist R}
    (wellFormed : state.WellFormed) (run : Run settings state last) :
    last.WellFormed ∧ state.loop settings = last.loop settings ∧
      state.outcome settings = last.outcome settings := by
  induction run with
  | refl => exact ⟨wellFormed, rfl, rfl⟩
  | tail _ turn ih =>
      obtain ⟨reached, sameLoop, sameOutcome⟩ := ih
      exact ⟨wellFormed_of_turn default reached turn, sameLoop.trans (loop_of_turn turn),
        sameOutcome.trans (outcome_of_turn default reached turn)⟩

/-- The loop ends with what the recursion makes of the state. -/
theorem loop_eq (default : settings.synthesize = synthesize) {state : Worklist R}
    (wellFormed : state.WellFormed) :
    state.loop settings = Part.some (state.outcome settings) := by
  obtain ⟨last, run, stopped⟩ := stops default wellFormed
  obtain ⟨reached, sameLoop, sameOutcome⟩ := run_keeps default wellFormed run
  rw [sameLoop, sameOutcome, loop_of_stopped default reached stopped]

/-- Operations that no rule applies to are finished as they are. -/
theorem loop_of_final {finished pending : List (Operation R)}
    (final : ∀ operation ∈ pending, operation.decompose settings = .ok none) :
    loop settings ⟨finished, pending⟩ = Part.some (.ok (finished ++ pending)) := by
  induction pending generalizing finished with
  | nil => rw [List.append_nil, loop_done]
  | cons operation pending ih =>
      obtain ⟨head, rest⟩ := List.forall_mem_cons.mp final
      rw [loop_of_turn (.finish head), ih rest, List.append_assoc, List.singleton_append]

/-- No rule applies to what is finished. -/
def Final (settings : DecompositionSettings R (GateResult R)) (state : Worklist R) : Prop :=
  ∀ operation ∈ state.finished, operation.decompose settings = .ok none

/-- What was finished stays final in every run. -/
theorem final_of_run {state last : Worklist R} (final : state.Final settings)
    (run : Run settings state last) : last.Final settings := by
  induction run with
  | refl => exact final
  | tail _ turn ih =>
      cases turn with
      | finish stuck => exact List.forall_mem_append.mpr ⟨ih, List.forall_mem_singleton.mpr stuck⟩
      | replace apart => exact ih

end Worklist

/-- Where the loop stops, it has finished what the recursion yields, or the next operation is
refused as the recursion is. -/
theorem run_of_decomposeAll (default : settings.synthesize = synthesize)
    {operations : List (Operation R)} (wellFormed : (Worklist.start operations).WellFormed) :
    (∃ result, decomposeAll settings operations = .ok result ∧
        Worklist.Run settings (.start operations) ⟨result, []⟩) ∨
      ∃ reason finished operation pending, decomposeAll settings operations = .error reason ∧
        Worklist.Run settings (.start operations) ⟨finished, operation :: pending⟩ ∧
          operation.decompose settings = .error reason := by
  obtain ⟨last, run, stopped⟩ := Worklist.stops default wellFormed
  obtain ⟨reached, _, same⟩ := Worklist.run_keeps default wellFormed run
  rw [Worklist.outcome_start] at same
  cases stopped with
  | done =>
      left
      exact ⟨_, same.trans Worklist.outcome_done, run⟩
  | refused failure =>
      obtain ⟨head, _⟩ := List.forall_mem_cons.mp reached
      right
      exact ⟨_, _, _, _, same.trans (Worklist.outcome_refused default head failure), run, failure⟩

/-- No rule applies to what the recursion yields. -/
theorem final_of_decomposeAll (default : settings.synthesize = synthesize)
    {operations result : List (Operation R)} (wellFormed : (Worklist.start operations).WellFormed)
    (decomposed : decomposeAll settings operations = .ok result) :
    ∀ operation ∈ result, operation.decompose settings = .ok none := by
  rcases run_of_decomposeAll default wellFormed with
    ⟨finished, success, run⟩ | ⟨_, _, _, _, failed, _⟩
  · have nothing : (Worklist.start operations).Final settings := List.forall_mem_nil _
    cases Except.ok.inj (success.symm.trans decomposed)
    exact Worklist.final_of_run nothing run
  · cases failed.symm.trans decomposed

/-- The recursion fails if and only if the loop comes to an operation that is refused. -/
theorem decomposeAll_eq_error_iff (default : settings.synthesize = synthesize)
    {operations : List (Operation R)} {reason : GateError R}
    (wellFormed : (Worklist.start operations).WellFormed) :
    decomposeAll settings operations = .error reason ↔
      ∃ finished operation pending,
        Worklist.Run settings (.start operations) ⟨finished, operation :: pending⟩ ∧
          operation.decompose settings = .error reason := by
  constructor
  · intro refused
    rcases run_of_decomposeAll default wellFormed with
      ⟨_, success, _⟩ | ⟨_, finished, operation, pending, failed, run, failure⟩
    · cases success.symm.trans refused
    · cases Except.error.inj (failed.symm.trans refused)
      exact ⟨finished, operation, pending, run, failure⟩
  · rintro ⟨finished, operation, pending, run, failure⟩
    obtain ⟨reached, _, same⟩ := Worklist.run_keeps default wellFormed run
    obtain ⟨head, _⟩ := List.forall_mem_cons.mp reached
    rw [← Worklist.outcome_start, same, Worklist.outcome_refused default head failure]

/-- **Decomposition is depth first.** With the default synthesis, the loop over a stack ends for
all operations with well-formed gates. It yields the expansions of the operations one after
the other, where the expansion of an operation is that of its parts. No rule applies to what it
yields, so decomposing again changes nothing, and lists of operations are decomposed one after
the other. It fails if and only if it comes to an operation that is refused, with the same
reason. -/
theorem decomposition_is_depth_first (settings : DecompositionSettings R (GateResult R))
    (default : settings.synthesize = synthesize) (operations : List (Operation R))
    (wellFormed : ∀ operation ∈ operations, operation.gate.WellFormed) :
    decomposeStack settings [] operations.reverse = Part.some (decomposeAll settings operations) ∧
      decomposeAll settings operations = (do
        return (← operations.mapM (Operation.expansion settings)).flatten) ∧
      (∀ operation : Operation R, operation.gate.WellFormed →
        operation.expansion settings = (do
          match ← operation.decompose settings with
          | none => return [operation]
          | some parts => return (← parts.mapM (Operation.expansion settings)).flatten)) ∧
      (∀ result, decomposeAll settings operations = .ok result →
        (∀ operation ∈ result, operation.decompose settings = .ok none) ∧
          decomposeAll settings result = .ok result ∧
          decomposeStack settings [] result.reverse = Part.some (.ok result)) ∧
      (∀ more, decomposeAll settings (operations ++ more) = (do
        return (← decomposeAll settings operations) ++ (← decomposeAll settings more))) ∧
      ∀ reason, decomposeAll settings operations = .error reason ↔
        ∃ finished operation pending,
          Worklist.Run settings (.start operations) ⟨finished, operation :: pending⟩ ∧
            operation.decompose settings = .error reason := by
  refine ⟨?_, rfl, ?_, ?_, ?_, ?_⟩
  · have begins : (Worklist.start operations).WellFormed := wellFormed
    have ended := Worklist.loop_eq default begins
    rwa [Worklist.outcome_start] at ended
  · intro operation gateWellFormed
    exact Operation.expansion_eq default gateWellFormed
  · intro result decomposed
    have final := final_of_decomposeAll default wellFormed decomposed
    exact ⟨final, decomposeAll_of_final final, Worklist.loop_of_final final⟩
  · intro more
    exact decomposeAll_append
  · intro reason
    exact decomposeAll_eq_error_iff default wellFormed

/-- An exchange under a qubit at level one, then a circuit of one exchange. -/
theorem decomposition_is_depth_first_exchanges :
    let guarded : Operation Float :=
      ⟨.controlled .x (.product (.ones 1)) [2], [.qubit 0, .qubit 1]⟩
    let circuit : Operation Float := ⟨.composite [2] (.step .x [0] .done), [.qubit 1]⟩
    decomposeStack .standard [] [circuit, guarded] =
      Part.some (.ok [⟨.cx, [.qubit 0, .qubit 1]⟩, ⟨.x, [.qubit 1]⟩]) := by
  intro guarded circuit
  have wellFormed : ∀ operation ∈ [guarded, circuit], operation.gate.WellFormed := by
    refine List.forall_mem_cons.mpr ⟨?_, List.forall_mem_singleton.mpr ⟨trivial, trivial⟩⟩
    exact ⟨trivial, rfl, rfl, by decide, rfl, rfl⟩
  exact (decomposition_is_depth_first .standard rfl [guarded, circuit] wellFormed).1

end QuditCircuits
