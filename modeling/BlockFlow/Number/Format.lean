import BlockFlow.Number.Decimal
import BlockFlow.Text.Digits

/-! The text of a number, from its significant digits and the place of its point. -/

namespace BlockFlow

/-- Where positional notation is used, and the details that differ between its users. The number
`0.ds * 10 ^ n` is written positionally when `n` lies between the two bounds. -/
structure DigitLayout where
  leastPoint : Int
  greatestPoint : Int
  wholeEnding : String
  exponentWidth : Nat
deriving DecidableEq

namespace DigitLayout

def zeros (n : Nat) : List Char := List.replicate n '0'

/-- Digits around a point that stands inside, before or behind them. -/
def positional (l : DigitLayout) (digits : List Char) : Int → String
  | .ofNat 0 => "0." ++ String.ofList digits
  | .negSucc n => "0." ++ String.ofList (zeros (n + 1) ++ digits)
  | .ofNat n =>
    if digits.length ≤ n then String.ofList (digits ++ zeros (n - digits.length)) ++ l.wholeEnding
    else String.ofList (digits.take n) ++ "." ++ String.ofList (digits.drop n)

/-- The exponent `e` with its sign, and with zeros in front up to the width. -/
def exponentText (l : DigitLayout) (e : Int) : String :=
  (if e < 0 then "-" else "+") ++ decimal l.exponentWidth e.natAbs

/-- One digit, the others behind a point, and the exponent. -/
def scientific (l : DigitLayout) (digits : List Char) (point : Int) : String :=
  let mantissa :=
    match digits with
    | d :: e :: rest => String.ofList (d :: '.' :: e :: rest)
    | _ => String.ofList digits
  mantissa ++ "e" ++ l.exponentText (point - 1)

def text (l : DigitLayout) (digits : List Char) (point : Int) : String :=
  if l.leastPoint ≤ point ∧ point ≤ l.greatestPoint then l.positional digits point
  else l.scientific digits point

end DigitLayout

/-- A way to write doubles. -/
structure DoubleFormat where
  layout : DigitLayout
  nan : String
  infinity : String
  signedZero : Bool
deriving DecidableEq

namespace DoubleFormat

/-- A value shown in a message: positional from `1e-4` to below `1e16`, always with a point or an
exponent. -/
def display : DoubleFormat := ⟨⟨-3, 16, ".0", 2⟩, "nan", "inf", true⟩

/-- A number in a JSON text: as in messages, apart from the words for the non-finite ones. -/
def json : DoubleFormat := { display with nan := "NaN", infinity := "Infinity" }

/-- A number in an argument slot: positional from `1e-6` to below `1e21`, no point behind a whole
number, and no sign on zero. -/
def slot : DoubleFormat := ⟨⟨-5, 21, "", 1⟩, "NaN", "Infinity", false⟩

end DoubleFormat

namespace Double

def withSign (negative : Bool) (text : String) : String := if negative then "-" ++ text else text

def text (f : DoubleFormat) : Double → String
  | nan => f.nan
  | infinite negative => withSign negative f.infinity
  | finite negative rank =>
    if rank.val = 0 then withSign (negative && f.signedZero) ("0" ++ f.layout.wholeEnding)
    else
      let (digits, point) := (shortest rank).significant
      withSign negative (f.layout.text digits point)

end Double

end BlockFlow
