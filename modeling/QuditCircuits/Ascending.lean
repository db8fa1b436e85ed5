/-!
# Finite sets as ascending lists

A finite set of values of a linear order is stored as its strictly ascending
list. The list is determined by its members, so equality of stored lists is equality
of sets. Ascending lists are themselves ordered lexicographically.
-/

namespace QuditCircuits

/-- A finite set, stored as the strictly ascending list of its members. -/
structure Ascending (α : Type) [LT α] where
  toList : List α
  ascending : toList.Pairwise (· < ·)

namespace Ascending

variable {α : Type} [LT α]

instance [DecidableEq α] : DecidableEq (Ascending α) := fun first second =>
  if same : first.toList = second.toList then
    isTrue (by cases first; cases second; cases same; rfl)
  else isFalse fun equal => same (congrArg toList equal)

theorem ext {first second : Ascending α} (same : first.toList = second.toList) :
    first = second := by
  cases first
  cases second
  cases same
  rfl

/-- The set without members. -/
def empty : Ascending α := ⟨[], List.Pairwise.nil⟩

/-- The set with one member. -/
def singleton (member : α) : Ascending α := ⟨[member], List.pairwise_singleton _ _⟩

/-- Places a value in an ascending list unless it is already there. -/
def place [DecidableLT α] [DecidableEq α] (value : α) : List α → List α
  | [] => [value]
  | head :: tail =>
      if value < head then value :: head :: tail
      else if value = head then head :: tail
      else head :: place value tail

section Order

variable [LE α] [Std.IsLinearOrder α] [Std.LawfulOrderLT α]

omit [LE α] [Std.IsLinearOrder α] [Std.LawfulOrderLT α] in
/-- Placing adds the value and keeps the others. -/
theorem mem_place [DecidableLT α] [DecidableEq α] {value member : α} {items : List α} :
    member ∈ place value items ↔ member = value ∨ member ∈ items := by
  induction items with
  | nil => simp [place]
  | cons head tail previous =>
      unfold place
      split
      · simp
      · split
        next same => subst same; simp
        next => simp only [List.mem_cons, previous]; constructor <;> rintro (h | h | h) <;> simp [h]

/-- Placing keeps the order. -/
theorem place_pairwise [DecidableLT α] [DecidableEq α] {value : α} {items : List α}
    (ascending : items.Pairwise (· < ·)) : (place value items).Pairwise (· < ·) := by
  induction items with
  | nil => simp [place]
  | cons head tail previous =>
      obtain ⟨below, rest⟩ := List.pairwise_cons.mp ascending
      unfold place
      split
      next less =>
        refine List.pairwise_cons.mpr ⟨fun member inside => ?_, ascending⟩
        rcases List.mem_cons.mp inside with rfl | inside
        · exact less
        · exact Std.lt_trans less (below member inside)
      next notLess =>
        split
        · exact ascending
        next different =>
          refine List.pairwise_cons.mpr ⟨fun member inside => ?_, previous rest⟩
          rcases mem_place.mp inside with rfl | inside
          · rcases Std.lt_trichotomy head member with less | same | greater
            · exact less
            · exact absurd same.symm different
            · exact absurd greater notLess
          · exact below member inside

/-- The set of the values of a list in any order and with any repetitions. -/
def ofList [DecidableLT α] [DecidableEq α] : List α → Ascending α
  | [] => empty
  | value :: values =>
      let rest := ofList values
      ⟨place value rest.toList, place_pairwise rest.ascending⟩

theorem mem_ofList [DecidableLT α] [DecidableEq α] {member : α} {values : List α} :
    member ∈ (ofList values).toList ↔ member ∈ values := by
  induction values with
  | nil => simp [ofList, empty]
  | cons value values previous => simp [ofList, mem_place, previous]

end Order

/-! ## Lexicographic order of sets -/

instance : LT (Ascending α) := ⟨fun first second => first.toList < second.toList⟩

instance : LE (Ascending α) := ⟨fun first second => first.toList ≤ second.toList⟩

instance [DecidableEq α] [DecidableLT α] : DecidableLT (Ascending α) :=
  fun first second => inferInstanceAs (Decidable (first.toList < second.toList))

instance [LE α] [Std.IsLinearOrder α] [Std.LawfulOrderLT α] :
    Std.IsLinearOrder (Ascending α) where
  le_refl set := Std.le_refl set.toList
  le_trans _ _ _ first second := Std.le_trans (α := List α) first second
  le_antisymm _ _ first second := ext (Std.le_antisymm (α := List α) first second)
  le_total _ _ := Std.le_total (α := List α)

instance [LE α] [Std.IsLinearOrder α] [Std.LawfulOrderLT α] :
    Std.LawfulOrderLT (Ascending α) where
  lt_iff _ _ := Std.lt_iff_le_and_not_ge (α := List α)

end Ascending

end QuditCircuits
