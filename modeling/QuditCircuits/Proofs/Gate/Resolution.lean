import QuditCircuits.Proofs.Gate.Admission
import QuditCircuits.Proofs.Gate.Reachable

/-!
# Resolved controlled gates

Resolution puts the controls of a gate in front of a resolved gate without the checks of
building. The controls stay valid, so building the resolved gate again asks only whether its
applied gate is a mixture or still has symbols (`ControlledGate.rebuild_resolved_eq_ok_iff`).
A gate that is not a circuit keeps this rule. A circuit may lose its last symbol and have no
matrix, because one of its gates has none; it cannot be controlled any more
(`ControlledGate.rebuild_resolved_ne_ok`).
-/

namespace QuditCircuits

variable {R : Type} {bindings : Bindings R} {recursive : Bool}

/-! ## Gates without symbols -/

theorem Bindings.resolve_value {number : R} :
    bindings.resolve (.value number) recursive = .value number := by
  unfold resolve
  split
  · rw [resolveFully]
  · rfl

/-- Resolution keeps whether a gate is controlled. -/
theorem Gate.isControlled_resolve (gate : Gate R) :
    (gate.resolve bindings recursive).isControlled = gate.isControlled := by
  cases gate <;> rfl

variable [Scalar R]

mutual

/-- Resolution leaves a gate without symbols as it is. -/
theorem Gate.resolve_of_not_isParameterized {gate : Gate R} (wellFormed : gate.WellFormed)
    (numeric : gate.isParameterized = false) : gate.resolve bindings recursive = gate := by
  match gate with
  | .angle family (.value number) =>
      exact congrArg (Gate.angle family) Bindings.resolve_value
  | .angle family (.symbol name) => cases numeric
  | .controlled sub condition shape =>
      obtain ⟨subWellFormed, uncontrolled, -⟩ := wellFormed
      rw [Gate.resolve, sub.resolve_of_not_isParameterized subWellFormed numeric,
        Gate.flatten_of_not_isControlled uncontrolled, ControlledGate.toGate]
  | .composite shape body =>
      rw [Gate.resolve, body.resolve_of_not_isParameterized wellFormed numeric]
  | .x | .cx | .diagonal _ | .matrix _ _ | .measurement _ _ | .bitFlip _ | .reset | .idle _
  | .phaseFlip => rfl

/-- Resolution leaves a circuit without symbols as it is. -/
theorem Circuit.resolve_of_not_isParameterized {circuit : Circuit R}
    (wellFormed : circuit.WellFormed) (numeric : circuit.isParameterized = false) :
    circuit.resolve bindings recursive = circuit := by
  match circuit with
  | .done => rfl
  | .step gate positions rest =>
      obtain ⟨gateNumeric, restNumeric⟩ := Bool.or_eq_false_iff.mp numeric
      rw [Circuit.resolve, gate.resolve_of_not_isParameterized wellFormed.1 gateNumeric,
        rest.resolve_of_not_isParameterized wellFormed.2 restNumeric]

end

/-! ## Circuits without matrices -/

/-- A circuit that is placed gives an operation for each gate. -/
theorem Circuit.length_of_place {line : List Qudit} {circuit : Circuit R}
    {operations : List (Operation R)} (placed : circuit.place line = .ok operations) :
    operations.length = circuit.unitaries.length := by
  match circuit with
  | .done =>
      cases placed
      rfl
  | .step gate positions rest =>
      obtain ⟨_, _, placed⟩ := bind_eq_ok_iff.mp placed
      obtain ⟨_, _, placed⟩ := bind_eq_ok_iff.mp placed
      obtain ⟨others, othersPlaced, equal⟩ := bind_eq_ok_iff.mp placed
      cases equal
      exact congrArg Nat.succ (rest.length_of_place othersPlaced)

/-- A circuit has a matrix only if all of its gates have one. -/
theorem Gate.exists_unitary_of_composite {shape : List Nat} {body : Circuit R}
    {result : Unitary R} (present : (Gate.composite shape body).unitary = .ok (some result)) :
    ∀ matrix ∈ body.unitaries, ∃ entries, matrix = .ok (some entries) := by
  rw [Gate.unitary] at present
  obtain ⟨line, _, present⟩ := bind_eq_ok_iff.mp present
  split at present
  case h_1 => cases present
  case h_2 => cases present
  case h_3 operations placed =>
    have stages := exists_unitary_of_composeStages present
    have listed : (stagesOf body.unitaries operations).map Prod.fst = body.unitaries := by
      refine List.map_fst_zip ?_
      rw [List.length_map, body.length_of_place placed]
    intro matrix member
    rw [← listed] at member
    obtain ⟨stage, inside, rfl⟩ := List.mem_map.mp member
    exact stages stage inside

/-! ## The rule of building -/

namespace Gate

/-- What building asks of a gate holds of the gate it applies, too. -/
theorem checkControllable_of_control {sub : Gate R} {request : ControlRequest}
    {built : ControlledGate R} (success : sub.control request = .ok built)
    (unmeasured : built.sub.isMeasurement = false) :
    built.sub.checkControllable = .ok () := by
  obtain ⟨controllable, condition, shape, _, _, _, _, _, _, rfl⟩ := control_eq_ok_iff.mp success
  obtain ⟨-, mixture⟩ := checkControllable_eq_ok_iff.mp controllable
  rw [← hasMixture_flatten, ← isParameterized_flatten] at mixture
  exact checkControllable_eq_ok_iff.mpr ⟨unmeasured, mixture⟩

/-- A rotation has a matrix or a symbol. -/
theorem checkControllable_angle (family : AngleFamily) (parameter : Parameter R) :
    (Gate.angle family parameter).checkControllable = .ok () := by
  rw [checkControllable_eq_ok_iff]
  cases parameter with
  | value number => exact ⟨rfl, true, rfl, rfl⟩
  | symbol name => exact ⟨rfl, false, rfl, rfl⟩

/-- A gate that is no circuit is a rotation or has no symbols at all. -/
theorem checkControllable_resolve {gate : Gate R} (uncontrolled : gate.isControlled = false)
    (plain : ∀ shape body, gate ≠ .composite shape body)
    (controllable : gate.checkControllable = .ok ()) :
    (gate.resolve bindings recursive).checkControllable = .ok () := by
  cases gate
  case angle family parameter => exact checkControllable_angle family _
  case controlled => cases uncontrolled
  case composite shape body => exact absurd rfl (plain shape body)
  all_goals exact controllable

end Gate

namespace ControlledGate

variable {gate : ControlledGate R}

/-- The gate under the same controls, with the symbols of what it applies replaced. -/
def resolved (bindings : Bindings R) (recursive : Bool) (gate : ControlledGate R) :
    ControlledGate R :=
  { gate with sub := gate.sub.resolve bindings recursive }

omit [Scalar R] in
/-- To resolve a controlled gate is to resolve the gate that it applies. -/
theorem resolve_toGate (uncontrolled : gate.sub.isControlled = false) :
    gate.toGate.resolve bindings recursive = (gate.resolved bindings recursive).toGate := by
  rw [toGate, Gate.resolve, Gate.flatten_of_not_isControlled, resolved]
  rwa [Gate.isControlled_resolve]

/-- The controls of a gate are still valid after resolution, so that only the gate which they
apply is checked. -/
theorem rebuild_resolved_eq_ok_iff {rebuilt : ControlledGate R}
    (wellFormed : gate.toGate.WellFormed) :
    (gate.resolved bindings recursive).rebuild = .ok rebuilt ↔
      (gate.sub.resolve bindings recursive).checkControllable = .ok () ∧
        rebuilt = gate.resolved bindings recursive := by
  obtain ⟨-, uncontrolled, -, positive, valid, simplified⟩ := wellFormed
  rw [rebuild, Gate.control_eq_ok_iff_admits rfl]
  have same : flatten (gate.resolved bindings recursive).sub
      (gate.resolved bindings recursive).condition.simplified
      (gate.resolved bindings recursive).shape = gate.resolved bindings recursive := by
    rw [Gate.flatten_of_not_isControlled]
    · exact congrArg (ControlledGate.mk _ · _) simplified
    · exact (gate.sub.isControlled_resolve).trans uncontrolled
  rw [same, eq_comm (a := rebuilt)]
  refine and_congr_left fun _ => ⟨fun admits => admits.controllable, fun controllable => ?_⟩
  refine ⟨controllable, ?_, valid⟩
  rw [resolved, Gate.shape_resolve]
  exact positive

/-- A circuit that has lost its symbols is not controlled again if one of its gates has no
matrix. -/
theorem rebuild_resolved_ne_ok {rebuilt : ControlledGate R} {shape : List Nat}
    {body : Circuit R} (wellFormed : gate.toGate.WellFormed)
    (circuit : gate.sub = .composite shape body)
    (numeric : (body.resolve bindings recursive).isParameterized = false)
    (missing : ∃ matrix ∈ (body.resolve bindings recursive).unitaries,
      ∀ entries, matrix ≠ .ok (some entries)) :
    (gate.resolved bindings recursive).rebuild ≠ .ok rebuilt := by
  rw [ne_eq, rebuild_resolved_eq_ok_iff wellFormed, circuit, Gate.resolve]
  rintro ⟨controllable, -⟩
  obtain ⟨-, mixes, mixture, rule⟩ := Gate.checkControllable_eq_ok_iff.mp controllable
  rw [Gate.isParameterized, numeric, Bool.or_false] at rule
  subst rule
  obtain ⟨matrix?, present, some⟩ := bind_eq_ok_iff.mp mixture
  obtain ⟨result, rfl⟩ := Option.isSome_iff_exists.mp (Except.ok.inj some)
  obtain ⟨matrix, member, none⟩ := missing
  obtain ⟨entries, found⟩ := Gate.exists_unitary_of_composite present matrix member
  exact none entries found

end ControlledGate

/-! ## The rule for gates that operations reach -/

namespace ControlledGate

omit [Scalar R] in
theorem toGate_injective {first second : ControlledGate R}
    (same : first.toGate = second.toGate) : first = second := by
  cases first
  cases second
  cases same
  rfl

/-- The gate under the controls of a built gate may be controlled again. -/
theorem checkControllable_of_built {sub : Gate R} {request : ControlRequest}
    {built whole : ControlledGate R} (wellFormed : sub.WellFormed)
    (success : sub.control request = .ok built) (same : built.toGate = whole.toGate) :
    whole.sub.checkControllable = .ok () := by
  rw [← toGate_injective same]
  exact Gate.checkControllable_of_control success
    (Gate.wellFormed_of_control wellFormed success).2.2.1

end ControlledGate

/-- A power that is a controlled gate is built. -/
theorem Gate.exists_control_of_pow {gate : Gate R} {exponent : R} {power : ControlledGate R}
    (wellFormed : gate.WellFormed) (raised : gate.pow exponent = .ok (some power.toGate)) :
    ∃ (sub : Gate R) (request : ControlRequest), sub.WellFormed ∧
      sub.control request = .ok power := by
  match gate with
  | .controlled sub condition shape =>
      rw [pow] at raised
      obtain ⟨subPower, subRaised, raised⟩ := bind_eq_ok_iff.mp raised
      cases subPower with
      | none => cases raised
      | some subPower =>
          obtain ⟨built, success, same⟩ := exists_of_allowed raised
          rw [ControlledGate.toGate_injective same] at success
          exact ⟨subPower, _, wellFormed_of_pow wellFormed.1 subRaised, success⟩
  | .angle family parameter =>
      obtain ⟨_, _, ⟨⟩⟩ := Option.map_eq_some_iff.mp (Except.ok.inj raised)
  | .diagonal _ | .x | .cx | .matrix _ _ | .measurement _ _ | .bitFlip _ | .reset | .idle _
  | .phaseFlip | .composite _ _ => cases raised

/-- Every controlled gate that operations reach around a gate that is no circuit passes the check
of building. -/
theorem Gate.Reachable.checkControllable {gate : Gate R} (reached : gate.Reachable)
    {whole : ControlledGate R} (same : gate = whole.toGate)
    (plain : ∀ shape body, whole.sub ≠ .composite shape body) :
    whole.sub.checkControllable = .ok () := by
  induction reached generalizing whole with
  | primitive primitive =>
      subst same
      cases primitive
  | matrix accepted =>
      subst same
      cases Gate.eq_of_ofMatrix accepted
  | composite _ => cases same
  | control reached success =>
      exact ControlledGate.checkControllable_of_built reached.wellFormed success same
  | rebuild reached success =>
      exact ControlledGate.checkControllable_of_built reached.wellFormed success same
  | applied reached =>
      have uncontrolled := reached.wellFormed.2.1
      rw [same] at uncontrolled
      cases uncontrolled
  | pow reached raised =>
      subst same
      obtain ⟨sub, request, wellFormed, success⟩ := exists_control_of_pow reached.wellFormed raised
      exact ControlledGate.checkControllable_of_built wellFormed success rfl
  | @resolve gate bindings recursive reached ih =>
      have controlled : gate.isControlled = true := by
        rw [← gate.isControlled_resolve, same]
        rfl
      obtain ⟨sub, condition, shape, rfl⟩ := exists_of_isControlled controlled
      have kept : (⟨sub, condition, shape⟩ : ControlledGate R).toGate.resolve bindings recursive =
          _ := ControlledGate.resolve_toGate reached.wellFormed.2.1
      have resolved := ControlledGate.toGate_injective (same.symm.trans kept)
      subst resolved
      have circuitless : ∀ shape body, sub ≠ .composite shape body := by
        rintro shape body rfl
        exact plain _ _ rfl
      have controllable := ih (rfl : _ = (⟨sub, condition, shape⟩ : ControlledGate R).toGate)
        circuitless
      exact checkControllable_resolve reached.wellFormed.2.1 circuitless controllable
  | native reached found =>
      rcases native_cases found with rfl | ⟨rfl, built, success, rfl⟩
      · cases same
      · exact ControlledGate.checkControllable_of_built reached.wellFormed success same
  | controlledBy reached success ih =>
      unfold Operation.controlledBy at success
      split at success
      case isTrue =>
        cases success
        exact ih same plain
      case isFalse =>
        obtain ⟨built, controlled, made⟩ := bind_eq_ok_iff.mp success
        obtain ⟨-, rfl⟩ := Operation.make_eq_ok_iff.mp made
        exact ControlledGate.checkControllable_of_built reached.wellFormed controlled same
  | bound reached success ih =>
      rw [ControlledGate.gate_of_on success] at same
      exact ih same plain

/-- **Resolved controlled gates.** Resolution keeps the controls of a gate that was built. The
resolved gate, built again, is the gate itself if what it applies is a mixture or still has
symbols, and is refused otherwise. It is never refused if a gate that is no circuit, or one
without symbols, is applied. It is always refused if a circuit is applied that has lost its
symbols and holds a gate without a matrix. -/
theorem resolution_keeps_controls {sub : Gate R} {request : ControlRequest}
    {gate : ControlledGate R} (reached : sub.Reachable)
    (built : sub.control request = .ok gate) (bindings : Bindings R) (recursive : Bool) :
    let resolved := gate.resolved bindings recursive
    gate.toGate.resolve bindings recursive = resolved.toGate ∧
      (∀ rebuilt, resolved.rebuild = .ok rebuilt ↔
        rebuilt = resolved ∧ ∃ mixes, resolved.sub.hasMixture = .ok mixes ∧
          (mixes || resolved.sub.isParameterized) = true) ∧
      ((∀ shape body, gate.sub ≠ .composite shape body) ∨ gate.sub.isParameterized = false →
        resolved.rebuild = .ok resolved) ∧
      (∀ shape body, gate.sub = .composite shape body → resolved.sub.isParameterized = false →
        (∃ matrix ∈ (body.resolve bindings recursive).unitaries,
          ∀ entries, matrix ≠ .ok (some entries)) →
        ∀ rebuilt, resolved.rebuild ≠ .ok rebuilt) := by
  intro resolved
  have wellFormed := Gate.wellFormed_of_control reached.wellFormed built
  have ⟨subWellFormed, uncontrolled, unmeasured, _⟩ := wellFormed
  have controllable := Gate.checkControllable_of_control built unmeasured
  refine ⟨ControlledGate.resolve_toGate uncontrolled, fun rebuilt => ?_, fun kept => ?_,
    fun shape body circuit numeric missing rebuilt => ?_⟩
  · rw [ControlledGate.rebuild_resolved_eq_ok_iff wellFormed, Gate.checkControllable_eq_ok_iff,
      Gate.isMeasurement_resolve]
    exact ⟨fun ⟨⟨_, mixture⟩, same⟩ => ⟨same, mixture⟩,
      fun ⟨same, mixture⟩ => ⟨⟨unmeasured, mixture⟩, same⟩⟩
  · refine (ControlledGate.rebuild_resolved_eq_ok_iff wellFormed).mpr ⟨?_, rfl⟩
    rcases kept with plain | numeric
    · exact Gate.checkControllable_resolve uncontrolled plain controllable
    · rwa [Gate.resolve_of_not_isParameterized subWellFormed numeric]
  · refine ControlledGate.rebuild_resolved_ne_ok wellFormed circuit ?_ missing
    have whole : resolved.sub = .composite shape (body.resolve bindings recursive) :=
      congrArg (Gate.resolve bindings recursive) circuit
    rwa [whole] at numeric

/-- A rotation about a symbol under one control. -/
theorem resolution_keeps_controls_rotation :
    let gate : ControlledGate Float :=
      ⟨.angle .rz (.symbol "t"), .product (.ofValues [1]), [2]⟩
    let bindings : Bindings Float := .ofList [("t", .value 0.5)]
    gate.sub.Reachable ∧ gate.sub.control {} = .ok gate ∧
      gate.toGate.resolve bindings true = (gate.resolved bindings true).toGate ∧
      (gate.resolved bindings true).rebuild = .ok (gate.resolved bindings true) := by
  intro gate bindings
  have reached : gate.sub.Reachable := .primitive rfl
  have built : gate.sub.control {} = .ok gate := rfl
  obtain ⟨kept, -, rule, -⟩ := resolution_keeps_controls reached built bindings true
  have plain : ∀ shape body, gate.sub ≠ .composite shape body := by rintro _ _ ⟨⟩
  exact ⟨reached, built, kept, rule (.inl plain)⟩

/-- A measurement before a rotation about a symbol may be controlled, but not once the symbol
is bound. -/
theorem resolution_loses_rule :
    let circuit : Gate Float :=
      .composite [2] (.step (.measurement "m" [2]) [0]
        (.step (.angle .rz (.symbol "t")) [0] .done))
    let gate : ControlledGate Float := ⟨circuit, .product (.ofValues [1]), [2]⟩
    let bindings : Bindings Float := .ofList [("t", .value 0.5)]
    circuit.Reachable ∧ circuit.control {} = .ok gate ∧ ∀ recursive,
      ∃ resolved : ControlledGate Float,
        gate.toGate.resolve bindings recursive = resolved.toGate ∧
          resolved.rebuild = .error (.nonUnitarySubGate resolved.sub) := by
  intro circuit gate bindings
  have bound (recursive : Bool) : bindings.resolve (.symbol "t") recursive = .value 0.5 := by
    cases recursive with
    | false => rfl
    | true =>
        rw [Bindings.resolve, if_pos rfl, Bindings.resolveFully]
        split
        case h_1 unbound => cases unbound
        case h_2 next found =>
          cases found
          rw [Bindings.resolveFully]
  refine ⟨.composite ?_, rfl, fun recursive => ⟨⟨.composite [2]
    (.step (.measurement "m" [2]) [0] (.step (.angle .rz (.value 0.5)) [0] .done)),
    gate.condition, gate.shape⟩, ?_, rfl⟩⟩
  · refine List.forall_mem_cons.mpr ⟨.primitive rfl, List.forall_mem_singleton.mpr ?_⟩
    exact .primitive rfl
  · simp only [gate, circuit, ControlledGate.toGate, ControlledGate.flatten, Gate.resolve,
      Circuit.resolve, bound]

end QuditCircuits
