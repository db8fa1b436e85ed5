import QuditCircuits.Text.Extending
import QuditCircuits.Text.Unprintable

/-!
# Literals

The texts of strings, lists and records in descriptive output. A string is put
in double quotes; quotes, backslashes and the characters that would not stand
visibly by themselves are escaped.
-/

namespace QuditCircuits.Text

/-- The hexadecimal digits of a number, without leading zeros. -/
def hexadecimal (number : Nat) : String :=
  String.ofList (Nat.toDigits 16 number)

/-- A character by its code point. -/
def codeEscape (character : Char) : String :=
  "\\u\x7b" ++ hexadecimal character.toNat ++ "\x7d"

/-- A character inside quotes. -/
def escape (character : Char) : String :=
  if character = '"' then "\\\""
  else if character = '\\' then "\\\\"
  else if character = '\n' then "\\n"
  else if character = '\t' then "\\t"
  else if character = '\r' then "\\r"
  else if character = '\x00' then "\\0"
  else if isOverlaid character || isUnprintable character then codeEscape character
  else character.toString

/-- A string in quotes. -/
def quote (text : String) : String :=
  "\"" ++ String.join (text.toList.map escape) ++ "\""

/-- Items in square brackets, separated by commas. -/
def brackets (items : List String) : String :=
  "[" ++ ", ".intercalate items ++ "]"

/-- A named record with its fields in order. -/
def record (name : String) (fields : List (String × String)) : String :=
  name ++ " \x7b " ++ ", ".intercalate (fields.map fun field => field.1 ++ ": " ++ field.2)
    ++ " \x7d"

/-- A name applied to one argument. -/
def call (name argument : String) : String :=
  name ++ "(" ++ argument ++ ")"

/-- A list of natural numbers in square brackets. -/
def naturals (numbers : List Nat) : String :=
  brackets (numbers.map toString)

end QuditCircuits.Text
