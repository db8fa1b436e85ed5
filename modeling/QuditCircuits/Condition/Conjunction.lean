import QuditCircuits.Ascending
import QuditCircuits.Machine
import QuditCircuits.Condition.Error

/-!
# Conjunctions

A conjunction gives every control qudit its own set of accepted levels; it holds
when each qudit takes a level of its set. `expand` lists the accepted assignments
in lexicographic order; `firstAssignments` computes a bounded part of that list
without forming the rest.
-/

namespace QuditCircuits

/-- A description of the levels accepted by one control qudit. -/
inductive LevelSpec where
  | value (level : Nat)
  | set (levels : List Nat)
deriving DecidableEq, Repr

/-- The levels a description stands for. -/
def LevelSpec.levels : LevelSpec → Ascending Nat
  | .value level => Ascending.singleton level
  | .set levels => Ascending.ofList levels

/-- One set of accepted levels per control qudit. -/
structure Conjunction where
  sets : List (Ascending Nat)
deriving DecidableEq

namespace Conjunction

/-- The conjunction described level by level. -/
def ofSpecs (specs : List LevelSpec) : Conjunction :=
  ⟨specs.map LevelSpec.levels⟩

/-- The conjunction accepting exactly one assignment. -/
def ofValues (values : List Nat) : Conjunction :=
  ofSpecs (values.map .value)

/-- The conjunction with the given sets of accepted levels. -/
def ofSets (sets : List (List Nat)) : Conjunction :=
  ofSpecs (sets.map .set)

/-- The set accepting only level one. -/
def one : Ascending Nat := Ascending.singleton 1

/-- The conjunction in which each of `count` qudits accepts only level one. -/
def ones (count : Nat) : Conjunction :=
  ⟨List.replicate count one⟩

/-- The number of bytes of a set of accepted levels. -/
def setWidth : Nat := 24

/-- The conjunction of ones, if it can be stored. -/
def ones? (count : Nat) : Except Fault Conjunction := do
  Machine.reserve count setWidth
  return ones count

/-- The number of control qudits. -/
def width (conjunction : Conjunction) : Nat :=
  conjunction.sets.length

/-- The accepted levels as lists. -/
def levels (conjunction : Conjunction) : List (List Nat) :=
  conjunction.sets.map Ascending.toList

/-- The conjunction over the qudits of both, those of `left` first. -/
def append (left right : Conjunction) : Conjunction :=
  ⟨left.sets ++ right.sets⟩

@[simp] theorem width_append {left right : Conjunction} :
    (left.append right).width = left.width + right.width := by
  simp [append, width]

@[simp] theorem width_ones {count : Nat} : (ones count).width = count := by
  simp [ones, width]

/-- Whether every qudit accepts exactly level one. -/
def isTrivial (conjunction : Conjunction) : Bool :=
  conjunction.sets.all (· == one)

/-- Whether each level lies in the set of its qudit. -/
def acceptsWithin : List (Ascending Nat) → List Nat → Bool
  | [], [] => true
  | set :: sets, level :: levels => set.toList.contains level && acceptsWithin sets levels
  | _, _ => false

/-- Whether an assignment of levels is accepted. -/
def accepts (conjunction : Conjunction) (assignment : List Nat) : Bool :=
  acceptsWithin conjunction.sets assignment

/-! ## Enumeration -/

/-- The assignments taking each level from its set, in lexicographic order. -/
def assignments : List (List Nat) → List (List Nat)
  | [] => [[]]
  | set :: sets => set.flatMap fun level => (assignments sets).map (level :: ·)

/-- The accepted assignments in lexicographic order. -/
def expand (conjunction : Conjunction) : List (List Nat) :=
  assignments conjunction.levels

/-- Puts each level before the given tails, until `count` lists are formed. -/
def prepend (tails : List (List Nat)) : Nat → List Nat → List (List Nat)
  | _, [] => []
  | count, level :: levels =>
      let formed := (tails.take count).map (level :: ·)
      if count ≤ formed.length then formed
      else formed ++ prepend tails (count - formed.length) levels

/-- The first `count` assignments. -/
def takeAssignments (count : Nat) : List (List Nat) → List (List Nat)
  | [] => [[]].take count
  | set :: sets => prepend (takeAssignments count sets) count set

/-- The first `count` accepted assignments. -/
def firstAssignments (conjunction : Conjunction) (count : Nat) : List (List Nat) :=
  takeAssignments count conjunction.levels

/-- Whether a reader that asked for `count` assignments, and stopped early only when
told that there are no more, gets one by asking again. Told so, the enumeration starts
over, unless there are no qudits or no assignments. -/
def yieldsAfter (conjunction : Conjunction) (count : Nat) : Bool :=
  let found := (conjunction.firstAssignments (count + 1)).length
  count < found || (found < count && found != 0 && conjunction.width != 0)

/-- Prepending with a limit gives the first of the lists that there are without it. -/
theorem prepend_eq_take (tails : List (List Nat)) (count : Nat) (levels : List Nat) :
    prepend tails count levels =
      (levels.flatMap fun level => tails.map (level :: ·)).take count := by
  induction levels generalizing count with
  | nil => simp [prepend]
  | cons level levels previous =>
      simp only [prepend, List.flatMap_cons, List.length_map, List.length_take]
      split
      next enough =>
        rw [List.take_append_of_le_length (by simp; omega)]
        simp [List.map_take]
      next more =>
        have all : tails.take count = tails := List.take_of_length_le (by omega)
        have count' : min count tails.length = tails.length := by omega
        have short : (tails.map (level :: ·)).length ≤ count := by simp; omega
        rw [previous, all, count', List.take_append, List.take_of_length_le short]
        simp

/-- Tails beyond the first `count` do not take part in the first `count` lists. -/
theorem take_flatMap_take (tails : List (List Nat)) (count : Nat) (levels : List Nat) :
    (levels.flatMap fun level => (tails.take count).map (level :: ·)).take count =
      (levels.flatMap fun level => tails.map (level :: ·)).take count := by
  cases levels with
  | nil => rfl
  | cons level levels =>
      simp only [List.flatMap_cons]
      rcases Nat.le_total tails.length count with short | long
      · rw [List.take_of_length_le short]
      · rw [List.take_append_of_le_length (by simp; omega),
          List.take_append_of_le_length (by simp; omega)]
        simp [List.map_take, List.take_take]

/-- The assignments up to a limit are the first of all. -/
theorem takeAssignments_eq (count : Nat) (sets : List (List Nat)) :
    takeAssignments count sets = (assignments sets).take count := by
  induction sets with
  | nil => rfl
  | cons set sets previous =>
      simp only [takeAssignments, assignments, prepend_eq_take, previous, take_flatMap_take]

/-- **Bounded enumeration.** The first assignments are a prefix of all of them. -/
theorem firstAssignments_eq_take (conjunction : Conjunction) (count : Nat) :
    conjunction.firstAssignments count = conjunction.expand.take count :=
  takeAssignments_eq count conjunction.levels

/-! ## Validity -/

/-- Checks accepted levels against the dimensions of their qudits, numbered from
`start`. -/
def checkFrom (start : Nat) : List (Ascending Nat) → List Nat → Except ConditionError Unit
  | set :: sets, dimension :: shape =>
      match set.toList.find? (fun level => dimension ≤ level) with
      | some level => .error (.outOfRange start level dimension)
      | none => checkFrom (start + 1) sets shape
  | _, _ => .ok ()

/-- Checks that the shape has the right length and every accepted level is a level
of its qudit. -/
def validate (conjunction : Conjunction) (shape : List Nat) : Except ConditionError Unit :=
  if shape.length = conjunction.width then checkFrom 0 conjunction.sets shape
  else .error (.shapeLength conjunction.width shape.length)

/-! ## Order -/

instance : LT Conjunction := ⟨fun first second => first.sets < second.sets⟩

instance : LE Conjunction := ⟨fun first second => first.sets ≤ second.sets⟩

instance : DecidableLT Conjunction :=
  fun first second => inferInstanceAs (Decidable (first.sets < second.sets))

theorem ext {first second : Conjunction} (same : first.sets = second.sets) : first = second := by
  cases first
  cases second
  cases same
  rfl

instance : Std.IsLinearOrder Conjunction where
  le_refl conjunction := Std.le_refl conjunction.sets
  le_trans _ _ _ first second := Std.le_trans (α := List (Ascending Nat)) first second
  le_antisymm _ _ first second := ext (Std.le_antisymm (α := List (Ascending Nat)) first second)
  le_total _ _ := Std.le_total (α := List (Ascending Nat))

instance : Std.LawfulOrderLT Conjunction where
  lt_iff _ _ := Std.lt_iff_le_and_not_ge (α := List (Ascending Nat))

end Conjunction

end QuditCircuits
