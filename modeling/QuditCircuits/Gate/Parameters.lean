import QuditCircuits.Gate.Basic

/-!
# Symbols in gates

Which unresolved symbols a gate depends on. The names form a set, listed in
ascending order.
-/

namespace QuditCircuits

variable {R : Type}

mutual

/-- Whether a gate depends on unresolved symbols. -/
def Gate.isParameterized : Gate R → Bool
  | .angle _ parameter => parameter.isSymbol
  | .controlled sub _ _ => sub.isParameterized
  | .composite _ body => body.isParameterized
  | .x | .cx | .diagonal _ | .matrix _ _ | .measurement _ _ | .bitFlip _ | .reset | .idle _
  | .phaseFlip => false

/-- Whether some gate of a circuit depends on unresolved symbols. -/
def Circuit.isParameterized : Circuit R → Bool
  | .done => false
  | .step gate _ rest => gate.isParameterized || rest.isParameterized

end

mutual

/-- The names of the symbols a gate depends on, in order of occurrence. -/
def Gate.symbols : Gate R → List String
  | .angle _ parameter => parameter.names
  | .controlled sub _ _ => sub.symbols
  | .composite _ body => body.symbols
  | .x | .cx | .diagonal _ | .matrix _ _ | .measurement _ _ | .bitFlip _ | .reset | .idle _
  | .phaseFlip => []

/-- The names of the symbols a circuit depends on, in order of occurrence. -/
def Circuit.symbols : Circuit R → List String
  | .done => []
  | .step gate _ rest => gate.symbols ++ rest.symbols

end

/-- The set of names of the symbols a gate depends on. -/
def Gate.parameterNames (gate : Gate R) : Ascending String :=
  Ascending.ofList gate.symbols

end QuditCircuits
