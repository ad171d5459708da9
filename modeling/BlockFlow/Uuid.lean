import BlockFlow.Text.Digits

/-! Random identifiers of 128 bits, six of which are fixed. -/

namespace BlockFlow

/-- The 32 digits of a random identifier: the thirteenth is `4`, the seventeenth is one of `89ab`. -/
def uuidDigits (bits : Nat) : String :=
  hexadecimal 12 (field 80 48) ++ "4" ++ hexadecimal 3 (field 64 12) ++
    hexadecimal 1 (8 + field 60 2) ++ hexadecimal 15 (field 0 60)
where
  field (shift width : Nat) : Nat := bits / Nat.pow 2 shift % Nat.pow 2 width

/-- An odd step, so that 128 bits repeat only after all of them have occurred. -/
def uuidStride : Nat := 0x9e3779b97f4a7c15f39cc0605cedc835

/-- The identifiers that a seed gives rise to. -/
def uuidFrom (seed n : Nat) : String := uuidDigits (seed + n * uuidStride)

end BlockFlow
