import BlockFlow.Number.Double

/-! Decimal numbers: reading one as a double, and the shortest one that reads back. -/

namespace BlockFlow

/-- The number `coefficient * 10 ^ exponent`. -/
structure Decimal where
  coefficient : Nat
  exponent : Int
deriving DecidableEq

def digitCount (n : Nat) : Nat := (Nat.toDigits 10 n).length

/-- `num / den` divided by `10 ^ exponent`, as a ratio. -/
def overPowerOfTen (num den : Nat) : Int → Nat × Nat
  | .ofNat e => (num, den * Nat.pow 10 e)
  | .negSucc e => (num * Nat.pow 10 (e + 1), den)

/-- The least `k` with `num / den < 10 ^ k`, for a positive ratio. -/
def decimalTop (num den : Nat) : Int :=
  if den ≤ num then digitCount (num / den)
  else
    let steps := (den - 1) / num
    if steps = 0 then 1 else 1 - digitCount steps

namespace Decimal

/-- The least `k` with `d < 10 ^ k`, for a positive decimal. -/
def top (d : Decimal) : Int := digitCount d.coefficient + d.exponent

/-- The significant digits `ds` and the place of the point `n`: the number is `0.ds * 10 ^ n`. -/
def significant (d : Decimal) : List Char × Int :=
  (((Nat.toDigits 10 d.coefficient).reverse.dropWhile (· == '0')).reverse, d.top)

end Decimal

namespace Double

/-- The double nearest to a decimal. Beyond the range of binary64 the powers of ten are not
computed: such a decimal is infinite or zero. -/
def ofDecimal (negative : Bool) (d : Decimal) : Double :=
  if d.coefficient = 0 then zero negative
  else if 310 < d.top then .infinite negative
  else if d.top < -330 then zero negative
  else
    match d.exponent with
    | .ofNat e => ofRatio negative (d.coefficient * Nat.pow 10 e) 1
    | .negSucc e => ofRatio negative d.coefficient (Nat.pow 10 (e + 1))

/-- Of the multiples of `10 ^ exponent` next to a magnitude, the nearer one that reads back. -/
def onGrid (rank : Fin rankCount) (exponent : Int) : Option Decimal :=
  let (num, den) := overPowerOfTen (units rank) unitsPerOne exponent
  let near := roundDiv num den
  let far := if near = num / den then near + 1 else near - 1
  let readsBack (c : Nat) : Bool := ofDecimal false ⟨c, exponent⟩ == .finite false rank
  if readsBack near then some ⟨near, exponent⟩
  else if readsBack far then some ⟨far, exponent⟩
  else none

/-- A magnitude with all its decimal places. -/
def exactDecimal (rank : Fin rankCount) : Decimal := ⟨units rank * Nat.pow 5 1074, -1074⟩

/-- The decimal of fewest digits that reads back as this magnitude; seventeen always suffice. -/
def shortest (rank : Fin rankCount) : Decimal :=
  let top := decimalTop (units rank) unitsPerOne
  ((List.range 17).findSome? fun (n : Nat) => onGrid rank (top - n - 1)).getD (exactDecimal rank)

end Double

end BlockFlow
