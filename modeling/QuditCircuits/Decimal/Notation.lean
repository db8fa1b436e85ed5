import QuditCircuits.Decimal.Binary
import QuditCircuits.Decimal.Rounding

/-!
# Written numbers

The texts of floating-point numbers: the shortest digits that read back, in
positional or exponent layout (`NumberFormat`), and a fixed number of decimal
places (`fixed`). The sign of zero is written.
-/

namespace QuditCircuits.Decimal

/-- The layout of shortest digits. -/
structure NumberFormat where
  /-- What follows a whole number in positional layout. -/
  wholeSuffix : String
  /-- The decimal orders of magnitude written positionally; others take an
  exponent. Without a range everything is positional. -/
  positional : Option (Int × Int)

/-- Positional at every magnitude, with no point in whole numbers. -/
def NumberFormat.plain : NumberFormat := ⟨"", none⟩

/-- Whole numbers end in `.0`, and magnitudes below `10 ^ (-4)` or from
`10 ^ 16` on take an exponent. -/
def NumberFormat.explicit : NumberFormat := ⟨".0", some (-4, 16)⟩

def zeros (count : Nat) : String :=
  String.ofList (List.replicate count '0')

/-- Puts a point before the last `places` digits of a coefficient, filling up
with zeros on the left. -/
def pointed (coefficient places : Nat) : String :=
  if places = 0 then toString coefficient
  else
    let digits := (toString coefficient).toList
    let padded := List.replicate (places + 1 - digits.length) '0' ++ digits
    let whole := padded.length - places
    String.ofList (padded.take whole ++ '.' :: padded.drop whole)

/-- A decimal in positional layout. -/
def positionalText (number : DecimalNumber) (wholeSuffix : String) : String :=
  if 0 ≤ number.exponent then
    toString number.coefficient ++ zeros number.exponent.toNat ++ wholeSuffix
  else pointed number.coefficient (-number.exponent).toNat

/-- A decimal as one digit before the point and an exponent. -/
def exponentText (number : DecimalNumber) : String :=
  let digits := (toString number.coefficient).toList
  let order := number.exponent + (digits.length - 1 : Nat)
  let mantissa :=
    match digits with
    | first :: second :: rest => String.ofList (first :: '.' :: second :: rest)
    | _ => String.ofList digits
  mantissa ++ "e" ++ toString order

/-- The order of magnitude of a decimal: the exponent of its leading digit. -/
def order (number : DecimalNumber) : Int :=
  number.exponent + ((toString number.coefficient).length - 1 : Nat)

/-- A positive number in the given format. -/
def NumberFormat.text (format : NumberFormat) (number : DecimalNumber) : String :=
  match format.positional with
  | none => positionalText number format.wholeSuffix
  | some (least, limit) =>
      if least ≤ order number ∧ order number < limit then
        positionalText number format.wholeSuffix
      else exponentText number

def signText (negative : Bool) : String :=
  if negative then "-" else ""

/-- The shortest text of a floating-point number that reads back. -/
def NumberFormat.write (format : NumberFormat) (x : Float) : String :=
  match BinaryNumber.ofFloat x with
  | .notANumber => "NaN"
  | .infinite negative => signText negative ++ "inf"
  | .finite negative 0 _ _ => signText negative ++ "0" ++ format.wholeSuffix
  | .finite negative significand exponent tight =>
      signText negative ++ format.text (shortest significand exponent tight)

/-- A floating-point number rounded to a fixed number of decimal places; a half
goes to the even neighbour. -/
def fixed (places : Nat) (x : Float) : String :=
  match BinaryNumber.ofFloat x with
  | .notANumber => "NaN"
  | .infinite negative => signText negative ++ "inf"
  | .finite negative significand exponent _ =>
      signText negative ++ pointed (roundToPlaces significand exponent places) places

end QuditCircuits.Decimal
