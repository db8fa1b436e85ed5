import QuditCircuits.Scalar

/-!
# Parameters and their resolution

A gate parameter is a number or a named symbol. Bindings replace symbols, possibly
by other symbols. Following a chain of symbols drops every name it has used, so a
chain cannot be longer than the bindings, and a cycle ends at the first symbol that
is met twice.
-/

namespace QuditCircuits

/-- A real gate parameter. -/
inductive Parameter (R : Type) where
  | value (number : R)
  | symbol (name : String)
deriving DecidableEq, Repr

namespace Parameter

variable {R : Type}

def isSymbol : Parameter R → Bool
  | .value _ => false
  | .symbol _ => true

def value? : Parameter R → Option R
  | .value number => some number
  | .symbol _ => none

def symbol? : Parameter R → Option String
  | .value _ => none
  | .symbol name => some name

/-- The names a parameter depends on. -/
def names (parameter : Parameter R) : List String :=
  parameter.symbol?.toList

/-- A number multiplied by a factor; symbols have no multiple. -/
def scaled [Scalar R] (factor : R) : Parameter R → Option (Parameter R)
  | .value number => some (.value (factor * number))
  | .symbol _ => none

/-- Whether two parameters are stored alike. -/
def same [Scalar R] : Parameter R → Parameter R → Bool
  | .value first, .value second => Scalar.same first second
  | .symbol first, .symbol second => first == second
  | _, _ => false

def text [Written R] : Parameter R → String
  | .value number => Written.plain number
  | .symbol name => name

end Parameter

/-- Replacements of symbols, at most one for each name. -/
structure Bindings (R : Type) where
  entries : List (String × Parameter R)

namespace Bindings

variable {R : Type}

def empty : Bindings R := ⟨[]⟩

/-- The bindings without a name. -/
def erase (bindings : Bindings R) (name : String) : Bindings R :=
  ⟨bindings.entries.filter fun entry => entry.1 != name⟩

/-- Binds a name, replacing what it was bound to. -/
def insert (bindings : Bindings R) (name : String) (parameter : Parameter R) : Bindings R :=
  ⟨(name, parameter) :: (bindings.erase name).entries⟩

/-- The bindings made by a list of replacements in order. -/
def ofList (replacements : List (String × Parameter R)) : Bindings R :=
  replacements.foldl (fun bindings entry => bindings.insert entry.1 entry.2) empty

/-- What a name is bound to. -/
def lookup (bindings : Bindings R) (name : String) : Option (Parameter R) :=
  bindings.entries.lookup name

/-- The number of bound names. -/
def size (bindings : Bindings R) : Nat :=
  bindings.entries.length

/-- Erasing a name that is bound leaves fewer entries. -/
theorem size_erase_lt {bindings : Bindings R} {name : String} {parameter : Parameter R}
    (bound : bindings.lookup name = some parameter) :
    (bindings.erase name).size < bindings.size := by
  obtain ⟨entries⟩ := bindings
  simp only [lookup, erase, size] at bound ⊢
  induction entries with
  | nil => simp at bound
  | cons entry entries previous =>
      obtain ⟨key, value⟩ := entry
      by_cases same : name = key
      · subst same
        exact Nat.lt_succ_of_le (by simp [List.length_filter_le])
      · have different : (key != name) = true := by simpa using Ne.symm same
        have rest : entries.lookup name = some parameter := by
          simpa [List.lookup_cons, beq_eq_false_iff_ne.mpr same] using bound
        simpa [different] using previous rest

/-- Makes at most one replacement. -/
def resolveOnce (bindings : Bindings R) : Parameter R → Parameter R
  | .value number => .value number
  | .symbol name => (bindings.lookup name).getD (.symbol name)

/-- Replaces symbols until a number, an unbound symbol, or a symbol already replaced
is reached. -/
def resolveFully (bindings : Bindings R) (parameter : Parameter R) : Parameter R :=
  match parameter with
  | .value number => .value number
  | .symbol name =>
      match _bound : bindings.lookup name with
      | none => .symbol name
      | some next => (bindings.erase name).resolveFully next
termination_by bindings.size
decreasing_by exact size_erase_lt _bound

/-- Resolves a parameter, following chains of symbols if `recursive` holds. -/
def resolve (bindings : Bindings R) (parameter : Parameter R) (recursive : Bool) :
    Parameter R :=
  if recursive then bindings.resolveFully parameter else bindings.resolveOnce parameter

end Bindings

end QuditCircuits
