import QuditCircuits.Decomposition.Full
import QuditCircuits.Proofs.Gate.WellFormed

/-!
# Extraction of overall phases

Settings that extract overall phases take a bare matrix apart with one more operation than
other settings do. A controlled gate is taken apart alike, since its applied gate is always
taken apart with its phase (`ControlledGate.decompose_extracting`). So two runs that differ in
this setting stay in step: they fail for the same reason, or succeed with the same operations up
to overall phases that one of them adds (`decomposeAll_in_step`).
-/

namespace QuditCircuits

variable {R : Type}

/-! ## Computations in step -/

/-- Two computations that succeed with related values or fail for the same reason. -/
inductive InStep {ε α : Type} (related : α → α → Prop) : Except ε α → Except ε α → Prop
  | ok {first second : α} (relates : related first second) : InStep related (.ok first) (.ok second)
  | error (reason : ε) : InStep related (.error reason) (.error reason)

namespace InStep

variable {ε α β : Type} {related : α → α → Prop} {after : β → β → Prop}

theorem refl (reflexive : ∀ value, related value value) (result : Except ε α) :
    InStep related result result := by
  cases result with
  | ok value => exact .ok (reflexive value)
  | error reason => exact .error reason

/-- Results in step stay in step if both are continued in step. -/
theorem bind {first second : Except ε α} {next other : α → Except ε β}
    (start : InStep related first second)
    (continued : ∀ value changed, related value changed →
      InStep after (next value) (other changed)) :
    InStep after (first >>= next) (second >>= other) := by
  cases start with
  | ok relates => exact continued _ _ relates
  | error reason => exact .error reason

end InStep

/-! ## Added phases -/

/-- Overall phases on no qudits. -/
def Gate.isGlobalPhase : Gate R → Bool
  | .angle .globalPhase _ => true
  | _ => false

/-- The second list is the first with overall phases added anywhere. -/
inductive PhasesAdded : List (Operation R) → List (Operation R) → Prop
  | nil : PhasesAdded [] []
  | keep {operation : Operation R} {plain extracted : List (Operation R)}
      (rest : PhasesAdded plain extracted) :
      PhasesAdded (operation :: plain) (operation :: extracted)
  | phase {operation : Operation R} {plain extracted : List (Operation R)}
      (added : operation.gate.isGlobalPhase = true) (rest : PhasesAdded plain extracted) :
      PhasesAdded plain (operation :: extracted)

namespace PhasesAdded

variable {plain extracted more moreExtracted : List (Operation R)}

theorem refl (operations : List (Operation R)) : PhasesAdded operations operations := by
  induction operations with
  | nil => exact .nil
  | cons operation operations ih => exact .keep ih

theorem append (front : PhasesAdded plain extracted) (back : PhasesAdded more moreExtracted) :
    PhasesAdded (plain ++ more) (extracted ++ moreExtracted) := by
  induction front with
  | nil => exact back
  | keep rest ih => exact .keep ih
  | phase added rest ih => exact .phase added ih

/-- A list of phases adds nothing but phases. -/
theorem of_phases (phases : ∀ operation ∈ extracted, operation.gate.isGlobalPhase = true) :
    PhasesAdded [] extracted := by
  induction extracted with
  | nil => exact .nil
  | cons operation extracted ih =>
      obtain ⟨head, rest⟩ := List.forall_mem_cons.mp phases
      exact .phase head (ih rest)

/-- With the added phases left out the plain list remains, in order. -/
theorem sublist (added : PhasesAdded plain extracted) : plain.Sublist extracted := by
  induction added with
  | nil => exact .slnil
  | keep rest ih => exact ih.cons_cons _
  | phase added rest ih => exact ih.cons _

/-- Without any phases both lists are the same. -/
theorem filter_eq (added : PhasesAdded plain extracted) :
    plain.filter (!·.gate.isGlobalPhase) = extracted.filter (!·.gate.isGlobalPhase) := by
  induction added with
  | nil => rfl
  | keep rest ih => rw [List.filter_cons, List.filter_cons, ih]
  | phase added rest ih => rw [List.filter_cons, added, ih]; rfl

/-- Runs over the listed operations are in step if the runs over each of them are, and phases
stay as they are. -/
theorem in_step_mapM (added : PhasesAdded plain extracted)
    {first second : Operation R → GateResult R (List (Operation R))}
    (each : ∀ operation, InStep PhasesAdded (first operation) (second operation))
    (final : ∀ operation : Operation R, operation.gate.isGlobalPhase = true →
      second operation = .ok [operation]) :
    InStep (fun pieces changed => PhasesAdded pieces.flatten changed.flatten)
      (plain.mapM first) (extracted.mapM second) := by
  induction added with
  | nil => exact .ok .nil
  | keep rest ih =>
      rw [List.mapM_cons, List.mapM_cons]
      refine (each _).bind fun piece changed front => ih.bind fun pieces others back => ?_
      exact .ok (front.append back)
  | @phase operation plain extracted isPhase rest ih =>
      rw [List.mapM_cons, final operation isPhase, ← bind_pure (plain.mapM first)]
      refine ih.bind fun pieces changed back => ?_
      exact .ok (.phase isPhase back)

end PhasesAdded

/-! ## One level -/

variable [Scalar R]

/-- An angle on no qudits is an overall phase, or left out. -/
theorem AngleFamily.onUnlessSmall_globalPhase (tolerance angle : R) :
    ∃ phases, AngleFamily.globalPhase.onUnlessSmall tolerance angle [] = .ok phases ∧
      ∀ operation ∈ phases, operation.gate.isGlobalPhase = true := by
  unfold onUnlessSmall
  split
  case isTrue => exact ⟨_, rfl, List.forall_mem_singleton.mpr rfl⟩
  case isFalse => exact ⟨_, rfl, List.forall_mem_nil _⟩

/-- Extraction puts the phase of a matrix behind its turns. -/
theorem EulerAngles.operations_true (angles : EulerAngles R) (tolerance : R)
    (qudits : List Qudit) :
    angles.operations true tolerance qudits = (do
      let turns ← angles.operations false tolerance qudits
      return turns ++ (← AngleFamily.globalPhase.onUnlessSmall tolerance angles.alpha [])) := by
  simp only [operations, bind_assoc, pure_bind, if_true, if_false, Bool.false_eq_true,
    List.append_nil]

/-- If phases are extracted, the turns of a matrix only get a phase behind them. -/
theorem EulerAngles.operations_in_step (angles : EulerAngles R) (extracts : Bool) (tolerance : R)
    (qudits : List Qudit) :
    InStep PhasesAdded (angles.operations extracts tolerance qudits)
      (angles.operations true tolerance qudits) := by
  cases extracts with
  | true => exact .refl PhasesAdded.refl _
  | false =>
      obtain ⟨phases, found, arePhases⟩ :=
        AngleFamily.onUnlessSmall_globalPhase tolerance angles.alpha
      rw [operations_true, found]
      cases angles.operations false tolerance qudits with
      | error reason => exact .error reason
      | ok turns =>
          have added := (PhasesAdded.refl turns).append (.of_phases arePhases)
          rw [List.append_nil] at added
          exact .ok added

variable (settings : DecompositionSettings R (GateResult R))

omit [Scalar R] in
/-- Elementary forms do not look at whether phases are extracted. -/
theorem ControlledForm.operations?_extracting (form : ControlledForm R) :
    form.operations? settings.extractingGlobalPhases = form.operations? settings := by
  cases form <;> rfl

/-- **Phases under controls.** A controlled gate is taken apart alike whether or not overall phases
are extracted. -/
theorem ControlledGate.decompose_extracting (gate : ControlledGate R) (qudits : List Qudit) :
    gate.toGate.decompose settings.extractingGlobalPhases qudits =
      gate.toGate.decompose settings qudits := by
  rw [toGate, Gate.decompose, Gate.decompose]
  simp only [ControlledForm.operations?_extracting]
  rfl

/-- By cases on the gate: only explicit matrices on a qubit look at the setting. -/
theorem Gate.decompose_in_step (gate : Gate R) (qudits : List Qudit) :
    InStep (Option.Rel PhasesAdded) (gate.decompose settings qudits)
      (gate.decompose settings.extractingGlobalPhases qudits) := by
  have same (result : GateResult R (Option (List (Operation R)))) :
      InStep (Option.Rel PhasesAdded) result result := by
    refine .refl (fun parts? => ?_) result
    cases parts? with
    | none => exact .none
    | some parts => exact .some (.refl parts)
  match gate with
  | .matrix entries shape =>
      rw [decompose, decompose]
      split
      case isTrue =>
        refine (EulerAngles.operations_in_step _ _ _ _).bind fun parts changed added => ?_
        exact .ok (.some added)
      case isFalse => exact same _
  | .controlled sub condition shape =>
      have alike := ControlledGate.decompose_extracting settings ⟨sub, condition, shape⟩ qudits
      exact alike ▸ same _
  | .composite _ _ | .x | .cx | .angle _ _ | .diagonal _ | .measurement _ _ | .bitFlip _ | .reset
  | .idle _ | .phaseFlip => exact same _

/-! ## All levels -/

/-- No rule applies to an overall phase. -/
theorem Operation.decomposeWithin_of_isGlobalPhase {operation : Operation R} (depth : Nat)
    (isPhase : operation.gate.isGlobalPhase = true) :
    operation.decomposeWithin settings depth = .ok [operation] := by
  obtain ⟨gate, qudits⟩ := operation
  cases gate
  case angle family parameter => cases depth <;> rfl
  all_goals cases isPhase

/-- By induction on the depth: at each level the parts are the same up to added phases, and what
they are taken apart into is in step. -/
theorem Operation.decomposeWithin_in_step (depth : Nat) (operation : Operation R) :
    InStep PhasesAdded (operation.decomposeWithin settings depth)
      (operation.decomposeWithin settings.extractingGlobalPhases depth) := by
  induction depth generalizing operation with
  | zero => exact .ok (.refl _)
  | succ depth ih =>
      rw [decomposeWithin, decomposeWithin]
      have together := operation.gate.decompose_in_step settings operation.qudits
      refine together.bind fun parts? changed? level => ?_
      cases level with
      | none => exact .ok (.refl _)
      | some added =>
          refine (added.in_step_mapM ih fun phase isPhase =>
            decomposeWithin_of_isGlobalPhase _ depth isPhase).bind fun pieces changed joined => ?_
          exact .ok joined

/-- Runs with and without extraction of overall phases are in step. -/
theorem decomposeAll_in_step (operations : List (Operation R)) :
    InStep PhasesAdded (decomposeAll settings operations)
      (decomposeAll settings.extractingGlobalPhases operations) := by
  refine ((PhasesAdded.refl operations).in_step_mapM
    (fun operation => operation.decomposeWithin_in_step settings _) fun phase isPhase =>
      Operation.decomposeWithin_of_isGlobalPhase _ _ isPhase).bind fun pieces changed joined => ?_
  exact .ok joined

/-- **Extraction changes overall phases only.** Operations are decomposed with the extraction of
overall phases if and only if they are without it; otherwise both fail for the same reason. The
result without it is a sublist of the other, and up to overall phases they are the same list. One
level down, a controlled gate is taken apart alike. -/
theorem extraction_changes_phases_only (settings : DecompositionSettings R (GateResult R)) :
    (∀ operations : List (Operation R),
      (∃ plain extracted, decomposeAll settings operations = .ok plain ∧
        decomposeAll settings.extractingGlobalPhases operations = .ok extracted ∧
        plain.Sublist extracted ∧
        plain.filter (!·.gate.isGlobalPhase) = extracted.filter (!·.gate.isGlobalPhase)) ∨
      ∃ reason, decomposeAll settings operations = .error reason ∧
        decomposeAll settings.extractingGlobalPhases operations = .error reason) ∧
    ∀ (gate : ControlledGate R) (qudits : List Qudit),
      gate.toGate.decompose settings.extractingGlobalPhases qudits =
        gate.toGate.decompose settings qudits := by
  refine ⟨fun operations => ?_, ControlledGate.decompose_extracting settings⟩
  have together := decomposeAll_in_step settings operations
  generalize decomposeAll settings operations = plain? at together
  generalize decomposeAll settings.extractingGlobalPhases operations = extracted? at together
  cases together with
  | ok added => exact .inl ⟨_, _, rfl, rfl, added.sublist, added.filter_eq⟩
  | error reason => exact .inr ⟨reason, rfl, rfl⟩

end QuditCircuits
