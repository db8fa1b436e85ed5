import Mathlib.Data.List.Basic
import Mathlib.Data.List.Induction
import Mathlib.Data.List.Nodup
import Mathlib.Data.List.Perm.Subperm
import Mathlib.Logic.Relation
import QuditCircuits.Parameter

/-!
# Chains of symbols

A symbol leads to what it is bound to, and from there on: `Bindings.chain` is what is reached by a
number of replacements. Full resolution follows the chain from turn to turn, noting the names that
it has replaced (`Pursuit`). It comes to where the chain settles: to its end, or to the first symbol
that is met again, from where the chain runs in a cycle (`Bindings.exists_settles`). A chain settles
at one place only (`Bindings.Settles.unique`), so resolving what was resolved changes nothing.
-/

namespace QuditCircuits

variable {R : Type}

namespace Bindings

/-! ## Names that are left out -/

/-- An erased name is bound to nothing, the others to what they were. -/
theorem lookup_erase (bindings : Bindings R) (name other : String) :
    (bindings.erase name).lookup other =
      if other = name then none else bindings.lookup other := by
  obtain ⟨entries⟩ := bindings
  simp only [lookup, erase]
  induction entries with
  | nil => simp
  | cons entry entries ih =>
      obtain ⟨key, parameter⟩ := entry
      by_cases dropped : key = name
      · subst dropped
        rw [List.filter_cons_of_neg (by simp), ih]
        split
        case isTrue => rfl
        case isFalse different => rw [List.lookup_cons, beq_eq_false_iff_ne.mpr different]
      · rw [List.filter_cons_of_pos (by simpa using dropped), List.lookup_cons, ih,
          List.lookup_cons]
        by_cases found : other = key
        · subst found
          simp [dropped]
        · rw [beq_eq_false_iff_ne.mpr found]

/-- The bindings without the listed names. -/
def without (bindings : Bindings R) (names : List String) : Bindings R :=
  names.foldl erase bindings

theorem without_concat (bindings : Bindings R) (names : List String) (name : String) :
    bindings.without (names ++ [name]) = (bindings.without names).erase name :=
  List.foldl_append

theorem lookup_without (bindings : Bindings R) (names : List String) (name : String) :
    (bindings.without names).lookup name =
      if name ∈ names then none else bindings.lookup name := by
  induction names using List.reverseRecOn with
  | nil => rfl
  | append_singleton names last ih =>
      rw [without_concat, lookup_erase, ih, ← ite_or]
      exact if_congr (by simp [or_comm]) rfl rfl

theorem mem_names_of_lookup {bindings : Bindings R} {name : String} {parameter : Parameter R}
    (bound : bindings.lookup name = some parameter) :
    name ∈ bindings.entries.map Prod.fst := by
  obtain ⟨front, back, split, -⟩ := List.lookup_eq_some_iff.mp bound
  simp [split]

/-! ## What replacements reach -/

/-- What a parameter is replaced by, if anything. -/
def replacement? (bindings : Bindings R) : Parameter R → Option (Parameter R)
  | .value _ => none
  | .symbol name => bindings.lookup name

/-- One step makes the replacement if there is one. -/
theorem resolve_once (bindings : Bindings R) (parameter : Parameter R) :
    bindings.resolve parameter false = (bindings.replacement? parameter).getD parameter := by
  cases parameter <;> rfl

/-- What is reached from a parameter by a number of replacements, if there are as many. -/
def chain (bindings : Bindings R) (parameter : Parameter R) : Nat → Option (Parameter R)
  | 0 => some parameter
  | count + 1 => (bindings.chain parameter count).bind bindings.replacement?

variable {bindings : Bindings R} {parameter reached : Parameter R}

/-- The chain goes on from what it has reached. -/
theorem chain_add {first : Nat} (found : bindings.chain parameter first = some reached)
    (count : Nat) : bindings.chain parameter (first + count) = bindings.chain reached count := by
  induction count with
  | zero => exact found
  | succ count ih => rw [← Nat.add_assoc, chain, ih, chain]

/-- A chain that has reached something has come past all that is before it. -/
theorem exists_chain_of_le {first second : Nat} (le : first ≤ second)
    (found : bindings.chain parameter second = some reached) :
    ∃ earlier, bindings.chain parameter first = some earlier := by
  induction le generalizing reached with
  | refl => exact ⟨reached, found⟩
  | step _ ih =>
      obtain ⟨previous, before, -⟩ := Option.bind_eq_some_iff.mp found
      exact ih before

/-- Nothing is reached beyond what has no replacement. -/
theorem chain_eq_none {first second : Nat} (found : bindings.chain parameter first = some reached)
    (final : bindings.replacement? reached = none) (beyond : first < second) :
    bindings.chain parameter second = none := by
  by_contra continued
  obtain ⟨later, continued⟩ := Option.ne_none_iff_exists'.mp continued
  obtain ⟨next, after⟩ := exists_chain_of_le (Nat.succ_le_of_lt beyond) continued
  rw [chain, found, Option.bind_some, final] at after
  cases after

/-- A chain in which something recurs has no end. -/
theorem exists_chain_of_recurs {first second : Nat} (earlier : first < second)
    (before : bindings.chain parameter first = some reached)
    (again : bindings.chain parameter second = some reached) (count : Nat) :
    ∃ later, bindings.chain parameter count = some later := by
  induction count using Nat.strongRecOn with
  | ind count ih =>
      rcases Nat.lt_or_ge second count with beyond | le
      · obtain ⟨more, rfl⟩ := Nat.exists_eq_add_of_le (Nat.le_of_lt beyond)
        rw [chain_add again, ← chain_add before]
        exact ih (first + more) (Nat.add_lt_add_right earlier more)
      · exact exists_chain_of_le le again

/-- A chain settles at what it reaches by a number of replacements if nothing has recurred before,
and there is either no further replacement, or the chain has been there before. -/
structure Settles (bindings : Bindings R) (parameter reached : Parameter R) (count : Nat) :
    Prop where
  reaches : bindings.chain parameter count = some reached
  distinct : ∀ first second, first < second → second < count →
    bindings.chain parameter first ≠ bindings.chain parameter second
  stops : bindings.replacement? reached = none ∨
    ∃ first < count, bindings.chain parameter first = some reached

/-- A chain does not settle twice. -/
theorem Settles.le {first second : Nat} {other : Parameter R}
    (settles : bindings.Settles parameter reached first)
    (again : bindings.Settles parameter other second) : second ≤ first := by
  by_contra later
  rw [Nat.not_le] at later
  rcases settles.stops with final | ⟨before, small, recurs⟩
  · cases (chain_eq_none settles.reaches final later).symm.trans again.reaches
  · exact again.distinct before first small later (recurs.trans settles.reaches.symm)

/-- A chain settles at one parameter, after one number of replacements. -/
theorem Settles.unique {first second : Nat} {other : Parameter R}
    (settles : bindings.Settles parameter reached first)
    (again : bindings.Settles parameter other second) : reached = other ∧ first = second := by
  have same : first = second := Nat.le_antisymm (again.le settles) (settles.le again)
  subst same
  exact ⟨Option.some.inj (settles.reaches.symm.trans again.reaches), rfl⟩

/-- A chain that has an end settles there. -/
theorem Settles.eq_of_final {count place : Nat} {last : Parameter R}
    (settles : bindings.Settles parameter reached count)
    (found : bindings.chain parameter place = some last)
    (final : bindings.replacement? last = none) : reached = last := by
  rcases settles.stops with stops | ⟨first, earlier, recurs⟩
  · rcases Nat.lt_trichotomy count place with before | same | after
    · cases (chain_eq_none settles.reaches stops before).symm.trans found
    · subst same
      exact Option.some.inj (settles.reaches.symm.trans found)
    · cases (chain_eq_none found final after).symm.trans settles.reaches
  · obtain ⟨later, continued⟩ :=
      exists_chain_of_recurs earlier recurs settles.reaches (place + 1)
    cases (chain_eq_none found final (Nat.lt_succ_self place)).symm.trans continued

/-- A chain that can go on from where it settles has been at this symbol before, and comes back to
it. -/
theorem Settles.exists_cycle {count : Nat} (settles : bindings.Settles parameter reached count)
    (continued : bindings.replacement? reached ≠ none) :
    ∃ name, reached = .symbol name ∧ ∃ first < count,
      bindings.chain parameter first = some reached ∧
      bindings.chain reached (count - first) = some reached := by
  rcases settles.stops with final | ⟨first, earlier, found⟩
  · exact absurd final continued
  · cases reached with
    | value number => exact absurd rfl continued
    | symbol name =>
        refine ⟨name, rfl, first, earlier, found, ?_⟩
        rw [← chain_add found, Nat.add_sub_cancel' (Nat.le_of_lt earlier)]
        exact settles.reaches

/-- From where a chain settles it settles at the same place, at once or after a cycle. -/
theorem Settles.exists_settles_self {count : Nat}
    (settles : bindings.Settles parameter reached count) :
    ∃ round, bindings.Settles reached reached round := by
  rcases settles.stops with final | ⟨first, small, recurs⟩
  · exact ⟨0, rfl, fun _ _ _ small => absurd small (Nat.not_lt_zero _), .inl final⟩
  · have after (index : Nat) : bindings.chain reached index =
        bindings.chain parameter (first + index) := (chain_add recurs index).symm
    refine ⟨count - first, ?_, fun earlier later before inside => ?_, .inr ⟨0, ?_, rfl⟩⟩
    · rw [after, Nat.add_sub_cancel' (Nat.le_of_lt small), settles.reaches]
    · rw [after, after]
      apply settles.distinct
      · exact Nat.add_lt_add_left before first
      · omega
    · exact Nat.sub_pos_of_lt small

end Bindings

/-! ## The loop -/

/-- A parameter that is being resolved, and the names replaced on the way to it. -/
structure Pursuit (R : Type) where
  current : Parameter R
  visited : List String

namespace Pursuit

/-- Nothing has been replaced at first. -/
def start (parameter : Parameter R) : Pursuit R :=
  ⟨parameter, []⟩

/-- A turn of the loop replaces a symbol that is bound and has not been replaced before. -/
inductive Turn (bindings : Bindings R) : Pursuit R → Pursuit R → Prop
  | replace {name : String} {visited : List String} {next : Parameter R} (fresh : name ∉ visited)
      (bound : bindings.lookup name = some next) :
      Turn bindings ⟨.symbol name, visited⟩ ⟨next, visited ++ [name]⟩

/-- The loop stops at a number, at a symbol that has been replaced before, and at one that is not
bound. -/
inductive Stopped (bindings : Bindings R) : Pursuit R → Prop
  | number {value : R} {visited : List String} : Stopped bindings ⟨.value value, visited⟩
  | recurring {name : String} {visited : List String} (again : name ∈ visited) :
      Stopped bindings ⟨.symbol name, visited⟩
  | unbound {name : String} {visited : List String} (free : bindings.lookup name = none) :
      Stopped bindings ⟨.symbol name, visited⟩

/-- A turn of the loop replaces the current parameter by what it is bound to. -/
theorem Turn.replacement {bindings : Bindings R} {state next : Pursuit R}
    (turn : Turn bindings state next) :
    bindings.replacement? state.current = some next.current := by
  cases turn with
  | replace fresh bound => exact bound

/-- Where nothing has been replaced yet, the loop stops for want of a replacement. -/
theorem Stopped.replacement {bindings : Bindings R} {parameter : Parameter R}
    (stopped : Stopped bindings (start parameter)) : bindings.replacement? parameter = none := by
  cases stopped with
  | number => rfl
  | recurring again => cases again
  | unbound free => exact free

/-- Any number of turns. -/
def Run (bindings : Bindings R) : Pursuit R → Pursuit R → Prop :=
  Relation.ReflTransGen (Turn bindings)

variable {bindings : Bindings R} {parameter : Parameter R}

/-- The recursion, which leaves out the names that it has replaced, comes to where the loop
stops. -/
theorem exists_run (bindings : Bindings R) (current : Parameter R) (visited : List String) :
    ∃ last, Run bindings ⟨current, visited⟩ last ∧ Stopped bindings last ∧
      last.current = (bindings.without visited).resolveFully current := by
  generalize left : bindings.without visited = rest
  fun_induction Bindings.resolveFully rest current generalizing visited with
  | case1 rest value => exact ⟨_, .refl, .number, rfl⟩
  | case2 rest name unbound =>
      refine ⟨_, .refl, ?_, rfl⟩
      rw [← left, Bindings.lookup_without] at unbound
      split at unbound
      case isTrue again => exact .recurring again
      case isFalse => exact .unbound unbound
  | case3 rest name next found ih =>
      rw [← left, Bindings.lookup_without] at found
      split at found
      case isTrue => cases found
      case isFalse fresh =>
        obtain ⟨last, run, stopped, same⟩ := ih (visited ++ [name])
          ((bindings.without_concat visited name).trans (congrArg (·.erase name) left))
        exact ⟨last, .head (.replace fresh found) run, stopped, same⟩

/-- The names of a pursuit are those of the symbols along the chain, all different and bound. -/
structure Follows (bindings : Bindings R) (parameter : Parameter R) (state : Pursuit R) :
    Prop where
  reaches : bindings.chain parameter state.visited.length = some state.current
  symbols : ∀ index name, state.visited[index]? = some name →
    bindings.chain parameter index = some (.symbol name)
  distinct : state.visited.Nodup
  bound : state.visited ⊆ bindings.entries.map Prod.fst

theorem follows_start : Follows bindings parameter (start parameter) :=
  ⟨rfl, nofun, List.nodup_nil, List.nil_subset _⟩

/-- A turn goes one place further along the chain. -/
theorem follows_of_turn {state next : Pursuit R} (follows : Follows bindings parameter state)
    (turn : Turn bindings state next) : Follows bindings parameter next := by
  obtain ⟨reaches, symbols, distinct, within⟩ := follows
  cases turn with
  | @replace name visited next fresh bound =>
      refine ⟨?_, ?_, ?_, ?_⟩
      · rw [List.length_append, List.length_singleton, Bindings.chain, reaches]
        exact bound
      · intro index other listed
        rcases Nat.lt_or_ge index visited.length with before | beyond
        · rw [List.getElem?_append_left before] at listed
          exact symbols index other listed
        · rw [List.getElem?_append_right beyond] at listed
          obtain ⟨last, rfl⟩ := List.getElem?_eq_some_iff.mp listed
          have same : index = visited.length := by simp at last; omega
          subst same
          simpa using reaches
      · rw [← List.concat_eq_append]
        exact distinct.concat fresh
      · apply List.append_subset.mpr
        refine ⟨within, List.cons_subset.mpr ⟨?_, List.nil_subset _⟩⟩
        exact Bindings.mem_names_of_lookup bound

/-- Every run follows the chain. -/
theorem follows_of_run {first last : Pursuit R} (follows : Follows bindings parameter first)
    (run : Run bindings first last) : Follows bindings parameter last := by
  induction run with
  | refl => exact follows
  | tail _ turn ih => exact follows_of_turn ih turn

/-- There are no more replacements than bindings. -/
theorem Follows.length_le {state : Pursuit R} (follows : Follows bindings parameter state) :
    state.visited.length ≤ bindings.size := by
  have fits := (follows.distinct.subperm follows.bound).length_le
  rwa [List.length_map] at fits

/-- The loop stops where the chain settles. -/
theorem Follows.settles {state : Pursuit R} (follows : Follows bindings parameter state)
    (stopped : Stopped bindings state) :
    bindings.Settles parameter state.current state.visited.length := by
  refine ⟨follows.reaches, ?_, ?_⟩
  · intro first second before inside same
    have earlier := Nat.lt_trans before inside
    rw [follows.symbols first _ (List.getElem?_eq_getElem earlier),
      follows.symbols second _ (List.getElem?_eq_getElem inside)] at same
    apply Nat.ne_of_lt before
    apply follows.distinct.getElem_inj_iff.mp
    exact Parameter.symbol.inj (Option.some.inj same)
  · cases stopped with
    | number => exact .inl rfl
    | unbound free => exact .inl free
    | recurring again =>
        obtain ⟨first, small, found⟩ := List.getElem_of_mem again
        refine .inr ⟨first, small, ?_⟩
        apply follows.symbols
        exact List.getElem?_eq_some_iff.mpr ⟨small, found⟩

/-- However it runs, the loop can go on or has stopped. -/
theorem exists_turn_or_stopped (bindings : Bindings R) (state : Pursuit R) :
    (∃ next, Turn bindings state next) ∨ Stopped bindings state := by
  obtain ⟨current, visited⟩ := state
  cases current with
  | value number => exact .inr .number
  | symbol name =>
      by_cases again : name ∈ visited
      · exact .inr (.recurring again)
      · cases bound : bindings.lookup name with
        | none => exact .inr (.unbound bound)
        | some next => exact .inl ⟨_, .replace again bound⟩

/-- Without recursion the loop takes a turn if it can. -/
theorem exists_single (bindings : Bindings R) (parameter : Parameter R) :
    ∃ last, last.current = bindings.resolve parameter false ∧
      (last = start parameter ∧ Stopped bindings last ∨ Turn bindings (start parameter) last) := by
  rcases exists_turn_or_stopped bindings (start parameter) with ⟨next, turn⟩ | stopped
  · have replaced : bindings.replacement? parameter = some next.current := turn.replacement
    refine ⟨next, ?_, .inr turn⟩
    rw [Bindings.resolve_once, replaced, Option.getD_some]
  · refine ⟨start parameter, ?_, .inl ⟨rfl, stopped⟩⟩
    rw [Bindings.resolve_once, stopped.replacement]
    rfl

end Pursuit

/-! ## Where resolution stops -/

namespace Bindings

/-- Full resolution comes to where the chain settles. -/
theorem exists_settles (bindings : Bindings R) (parameter : Parameter R) :
    ∃ count ≤ bindings.size,
      bindings.Settles parameter (bindings.resolve parameter true) count := by
  obtain ⟨last, run, stopped, same⟩ := Pursuit.exists_run bindings parameter []
  have follows := Pursuit.follows_of_run Pursuit.follows_start run
  have settles := follows.settles stopped
  rw [same] at settles
  exact ⟨last.visited.length, follows.length_le, settles⟩

/-- Where the chain settles, resolution ends. -/
theorem resolve_of_settles {bindings : Bindings R} {parameter reached : Parameter R} {count : Nat}
    (settles : bindings.Settles parameter reached count) :
    bindings.resolve parameter true = reached := by
  obtain ⟨other, -, again⟩ := exists_settles bindings parameter
  exact (again.unique settles).1

/-- What was resolved is resolved. -/
theorem resolve_resolve (bindings : Bindings R) (parameter : Parameter R) :
    bindings.resolve (bindings.resolve parameter true) true = bindings.resolve parameter true := by
  obtain ⟨count, -, settles⟩ := exists_settles bindings parameter
  obtain ⟨round, again⟩ := settles.exists_settles_self
  exact resolve_of_settles again

end Bindings

/-- **Resolution stops where the chain does.** The loop of resolution replaces no more symbols than
are bound, whatever turns it takes, and stops with the result. Where the chain of a parameter ends,
the result is its end. Where it does not, the result is the first symbol that is met for the second
time, and replacements lead from it back to it. A result is not resolved any further. Without
recursion there is at most one turn. -/
theorem resolution_stops_where_the_chain_does (bindings : Bindings R) (parameter : Parameter R) :
    (∀ state, Pursuit.Run bindings (.start parameter) state →
      state.visited.length ≤ bindings.size) ∧
    (∃ last, Pursuit.Run bindings (.start parameter) last ∧ Pursuit.Stopped bindings last ∧
      last.current = bindings.resolve parameter true) ∧
    (∀ count last, bindings.chain parameter count = some last →
      bindings.replacement? last = none → bindings.resolve parameter true = last) ∧
    ((∀ count last, bindings.chain parameter count = some last →
        bindings.replacement? last ≠ none) →
      ∃ name first second, bindings.resolve parameter true = .symbol name ∧ first < second ∧
        bindings.chain parameter first = some (.symbol name) ∧
        bindings.chain parameter second = some (.symbol name) ∧
        (∀ before after, before < after → after < second →
          bindings.chain parameter before ≠ bindings.chain parameter after) ∧
        bindings.chain (.symbol name) (second - first) = some (.symbol name)) ∧
    bindings.resolve (bindings.resolve parameter true) true = bindings.resolve parameter true ∧
    ∃ last, last.current = bindings.resolve parameter false ∧
      (last = .start parameter ∧ Pursuit.Stopped bindings last ∨
        Pursuit.Turn bindings (.start parameter) last) := by
  refine ⟨?_, Pursuit.exists_run bindings parameter [], ?_, ?_, bindings.resolve_resolve parameter,
    Pursuit.exists_single bindings parameter⟩
  · intro state run
    exact (Pursuit.follows_of_run Pursuit.follows_start run).length_le
  · intro count last found final
    obtain ⟨place, -, settles⟩ := bindings.exists_settles parameter
    exact settles.eq_of_final found final
  · intro endless
    obtain ⟨second, -, settles⟩ := bindings.exists_settles parameter
    obtain ⟨name, same, first, earlier, found, cycle⟩ :=
      settles.exists_cycle (endless second _ settles.reaches)
    rw [same] at settles found cycle
    exact ⟨name, first, second, same, earlier, found, settles.reaches, settles.distinct, cycle⟩

/-- What leads into a cycle is resolved to where the cycle begins. -/
example : (Bindings.ofList [("a", .symbol "x"), ("x", .symbol "y"), ("y", .symbol "x")] :
    Bindings Nat).resolve (.symbol "a") true = .symbol "x" := by
  cbv

end QuditCircuits
