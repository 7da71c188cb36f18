/-! Unsigned decimal numerals of a bounded size. -/
namespace AtMostOnce.Text

/-- The value of a list of decimal digits, the most significant first. -/
def decimalValue (digits : List Char) : Nat :=
  digits.foldl (fun n d => 10 * n + (d.toNat - '0'.toNat)) 0

/-- The digits of a numeral, after an optional plus sign. -/
def unsigned : List Char → List Char
  | '+' :: digits => digits
  | digits => digits

/-- The value of an optional plus sign and one or more ASCII digits, if it is below `bound`. -/
def numeral? (bound : Nat) (s : List Char) : Option Nat :=
  let digits := unsigned s
  if digits ≠ [] ∧ digits.all Char.isDigit ∧ decimalValue digits < bound then
    some (decimalValue digits)
  else none

end AtMostOnce.Text
