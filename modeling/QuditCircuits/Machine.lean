/-!
# Bounded counting

Dimensions, indices and sizes are natural numbers that must fit a 64-bit word.
Arithmetic on them is checked: a result outside the word range is a `Fault`, as
is a remainder by zero, an index outside a list or matrix, a product of matrices
whose sizes do not meet, a block of storage larger than the address space, or a
number of decimal places that no text can have.
-/

namespace QuditCircuits

/-- The ways in which a computation leaves the range it is defined on. -/
inductive Fault where
  /-- A sum or product does not fit a word. -/
  | overflow
  /-- A remainder by zero. -/
  | divisionByZero
  /-- A position outside a list, a register or a matrix. -/
  | indexOutOfRange
  /-- Matrix sizes that do not meet. -/
  | sizeMismatch
  /-- More storage than can be addressed. -/
  | capacity
  /-- A qudit without levels. -/
  | emptyQudit
  /-- More decimal places than a number can be written with. -/
  | precision
deriving DecidableEq, Repr, Inhabited

/-- A sequence of two steps succeeds when both do. -/
theorem bind_eq_ok_iff {ε α β : Type} {first : Except ε α} {next : α → Except ε β} {result : β} :
    first >>= next = .ok result ↔ ∃ value, first = .ok value ∧ next value = .ok result := by
  cases first <;> simp [bind, Except.bind]

/-- A sequence of two steps fails when one of them does. -/
theorem bind_eq_error_iff {ε α β : Type} {first : Except ε α} {next : α → Except ε β}
    {reason : ε} :
    first >>= next = .error reason ↔
      first = .error reason ∨ ∃ value, first = .ok value ∧ next value = .error reason := by
  cases first <;> simp [bind, Except.bind]

/-- What a mapping into results yields comes from the items it maps. -/
theorem exists_of_mem_mapM {ε α β : Type} {transform : α → Except ε β} {items : List α}
    {results : List β} (mapped : items.mapM transform = .ok results) {result : β}
    (member : result ∈ results) : ∃ item ∈ items, transform item = .ok result := by
  induction items generalizing results with
  | nil =>
      cases mapped
      cases member
  | cons item items recurse =>
      simp only [List.mapM_cons, bind_eq_ok_iff] at mapped
      obtain ⟨first, firstOk, others, othersOk, equal⟩ := mapped
      cases equal
      rcases List.mem_cons.mp member with rfl | later
      · exact ⟨item, List.mem_cons_self, firstOk⟩
      · obtain ⟨source, sourceMember, sourceOk⟩ := recurse othersOk later
        exact ⟨source, List.mem_cons_of_mem _ sourceMember, sourceOk⟩

namespace Machine

/-- The number of values of a word. -/
def wordRange : Nat := Nat.pow 2 64

/-- The number of bytes that can be addressed. -/
def addressRange : Nat := Nat.pow 2 63

/-- Sum of two words. -/
def add (left right : Nat) : Except Fault Nat :=
  if left + right < wordRange then .ok (left + right) else .error .overflow

/-- Product of two words. -/
def mul (left right : Nat) : Except Fault Nat :=
  if left * right < wordRange then .ok (left * right) else .error .overflow

/-- Difference of two words, which must not be negative. -/
def sub (left right : Nat) : Except Fault Nat :=
  if right ≤ left then .ok (left - right) else .error .overflow

/-- Product of the factors from the left, starting with `start`; every
intermediate product must fit a word. -/
def productFrom (start : Nat) : List Nat → Except Fault Nat
  | [] => .ok start
  | factor :: factors => do productFrom (← mul start factor) factors

/-- Product of a list of words, taken from the left. -/
def product (factors : List Nat) : Except Fault Nat :=
  productFrom 1 factors

/-- Checks that `count` items of `width` bytes each can be stored. -/
def reserve (count width : Nat) : Except Fault Unit :=
  if count * width < addressRange then .ok () else .error .capacity

/-- The element at a position that must lie inside the list. -/
def nth {α : Type} (items : List α) (position : Nat) : Except Fault α :=
  match items[position]? with
  | some item => .ok item
  | none => .error .indexOutOfRange

/-- The elements at positions that must lie inside the list. -/
def select {α : Type} (items : List α) (positions : List Nat) : Except Fault (List α) :=
  positions.mapM (nth items)

/-- The elements before and from a position that must not lie beyond the end. -/
def splitAt {α : Type} (items : List α) (position : Nat) : Except Fault (List α × List α) :=
  if position ≤ items.length then .ok (items.take position, items.drop position)
  else .error .indexOutOfRange

theorem add_eq_ok {left right : Nat} (fits : left + right < wordRange) :
    add left right = .ok (left + right) := by
  simp [add, fits]

theorem mul_eq_ok {left right : Nat} (fits : left * right < wordRange) :
    mul left right = .ok (left * right) := by
  simp [mul, fits]

theorem sub_eq_ok {left right : Nat} (ordered : right ≤ left) :
    sub left right = .ok (left - right) := by
  simp [sub, ordered]

theorem nth_eq_ok {α : Type} {items : List α} {position : Nat}
    (inside : position < items.length) : nth items position = .ok items[position] := by
  simp [nth, inside]

theorem splitAt_eq_ok {α : Type} {items : List α} {position : Nat}
    (inside : position ≤ items.length) :
    splitAt items position = .ok (items.take position, items.drop position) := by
  simp [splitAt, inside]

/-- Splitting succeeds up to the end, with the items before and behind the position. -/
theorem splitAt_eq_ok_iff {α : Type} {items front back : List α} {position : Nat} :
    splitAt items position = .ok (front, back) ↔
      position ≤ items.length ∧ items.take position = front ∧ items.drop position = back := by
  unfold splitAt
  split <;> simp [*]

end Machine

end QuditCircuits
