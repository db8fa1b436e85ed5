import QuditCircuits.Condition.Basic
import QuditCircuits.Text.Literal

/-!
# Written conditions

Conditions as a label before a gate name, as symbols on the wires of a diagram,
and as a description of their stored form.
-/

namespace QuditCircuits

/-- Levels written one after another. -/
def levelLabel (set : Ascending Nat) : String :=
  String.join (set.toList.map toString)

namespace Conjunction

/-- A `C` for each qudit, followed by its levels unless only level one is accepted. -/
def text (conjunction : Conjunction) : String :=
  String.join (conjunction.sets.map fun set => if set = one then "C" else "C" ++ levelLabel set)

/-- The levels of each qudit, in parentheses unless there is exactly one. -/
def termText (conjunction : Conjunction) : String :=
  String.join (conjunction.sets.map fun set =>
    if set.toList.length = 1 then levelLabel set else "(" ++ levelLabel set ++ ")")

/-- A dot for level one, and the accepted levels otherwise. -/
def wireSymbols (conjunction : Conjunction) : List String :=
  conjunction.sets.map fun set =>
    if set = one then "@" else "(" ++ ",".intercalate (set.toList.map toString) ++ ")"

def debugText (conjunction : Conjunction) : String :=
  Text.call "ProductOfSums" (Text.brackets (conjunction.levels.map Text.naturals))

end Conjunction

namespace Condition

/-- The label of a condition before the name of a gate. -/
def text : Condition → String
  | .product conjunction => conjunction.text
  | .sum disjunction =>
      "C_" ++ "_".intercalate (disjunction.terms.toList.map Conjunction.termText)

/-- One symbol per control wire. The alternatives of a disjunction are not drawn. -/
def wireSymbols : Condition → List String
  | .product conjunction => conjunction.wireSymbols
  | .sum disjunction => List.replicate disjunction.width "@"

/-- The stored form of a condition. -/
def debugText : Condition → String
  | .product conjunction => Text.call "Product" conjunction.debugText
  | .sum disjunction =>
      Text.call "Sum" (Text.record "SumOfProducts"
        [("num_qudits", toString disjunction.width),
          ("conjunctions",
            Text.brackets (disjunction.terms.toList.map Conjunction.debugText))])

end Condition

end QuditCircuits
