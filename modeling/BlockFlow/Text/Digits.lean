/-! Digits of a fixed width. -/

namespace BlockFlow

/-- Digits with zeros in front, at least `width` of them. -/
def padded (width : Nat) (digits : List Char) : List Char :=
  List.replicate (width - digits.length) '0' ++ digits

/-- A number in decimal, at least `width` digits long. -/
def decimal (width n : Nat) : String := String.ofList (padded width (Nat.toDigits 10 n))

/-- A number in lower-case hexadecimal, at least `width` digits long. -/
def hexadecimal (width n : Nat) : String := String.ofList (padded width (Nat.toDigits 16 n))

/-- The value of a hexadecimal digit of either case. -/
def hexValue? (c : Char) : Option Nat :=
  if c.isDigit then some (c.toNat - '0'.toNat)
  else if 'a' ≤ c ∧ c ≤ 'f' then some (c.toNat - 'a'.toNat + 10)
  else if 'A' ≤ c ∧ c ≤ 'F' then some (c.toNat - 'A'.toNat + 10)
  else none

end BlockFlow
