/-! Binary64 numbers, kept exactly. A finite magnitude is named by its rank: the number of
magnitudes below it. -/

namespace BlockFlow

/-- How many magnitudes lie from one power of two up to the next: `2 ^ 52`. -/
abbrev Double.binade : Nat := 0x10000000000000

/-- How many finite magnitudes binary64 has. -/
abbrev Double.rankCount : Nat := 2047 * Double.binade

/-- A binary64 number. There is one NaN; zero has a sign. -/
inductive Double
  | nan
  | infinite (negative : Bool)
  | finite (negative : Bool) (rank : Fin Double.rankCount)
deriving DecidableEq

/-- `num / den` as the nearest integer, a half as the even one. -/
def roundDiv (num den : Nat) : Nat :=
  let low := num / den
  let twice := 2 * (num % den)
  if twice < den ∨ twice = den ∧ low % 2 = 0 then low else low + 1

namespace Double

/-- Magnitudes are counted in units of the least positive one, and `1` is this many of them. -/
abbrev unitsPerOne : Nat := Nat.pow 2 1074

/-- The magnitude of a rank, in units. -/
def units (rank : Nat) : Nat :=
  if rank < binade then rank else (binade + rank % binade) * Nat.pow 2 (rank / binade - 1)

/-- The double nearest to `num / den`, a tie going to the even rank. A quotient of `53` bits or
fewer is a rank itself; each further bit doubles the step and passes `binade` more ranks. -/
def ofRatio (negative : Bool) (num den : Nat) : Double :=
  let scaled := num * unitsPerOne
  let shift := (scaled / den).log2 - 52
  let rank := shift * binade + roundDiv scaled (den * Nat.pow 2 shift)
  if h : rank < rankCount then .finite negative ⟨rank, h⟩ else .infinite negative

def zero (negative : Bool) : Double := .finite negative ⟨0, by decide⟩

def ofInt (n : Int) : Double := ofRatio (decide (n < 0)) n.natAbs 1

def isZero : Double → Bool
  | finite _ rank => rank.val == 0
  | _ => false

def signed (negative : Bool) (n : Nat) : Int := if negative then -n else n

/-- The integer that a finite double is, when it is one. -/
def toInt? : Double → Option Int
  | finite negative rank =>
    if units rank % unitsPerOne = 0 then some (signed negative (units rank / unitsPerOne)) else none
  | _ => none

/-- The integer next to a finite double on the side of zero. -/
def truncate? : Double → Option Int
  | finite negative rank => some (signed negative (units rank / unitsPerOne))
  | _ => none

/-- The greatest integer that is at most a finite double. -/
def floor? : Double → Option Int
  | finite negative rank =>
    let whole : Int := units rank / unitsPerOne
    some (if negative then -(if units rank % unitsPerOne = 0 then whole else whole + 1) else whole)
  | _ => none

end Double

end BlockFlow
