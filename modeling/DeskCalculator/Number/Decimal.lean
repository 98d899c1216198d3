import DeskCalculator.Number.Radix

/-!
Decimal numbers ± digits · 10 ^ exponent: the double nearest to one and its text without an
exponent.
-/
namespace DeskCalculator.Number

/-- A decimal number: the sign, all digits read as one natural number, and the power of ten that
the last digit counts. -/
structure Decimal where
  negative : Bool
  digits : Nat
  exponent : Int
deriving Repr, DecidableEq

namespace Decimal

/-- The double nearest to a decimal number, ties to even; what is too large becomes infinite and
what is too small becomes zero. -/
def toFloat (d : Decimal) : Float :=
  let magnitude := Float.ofScientific d.digits (d.exponent < 0) d.exponent.natAbs
  if d.negative then -magnitude else magnitude

/-- The magnitude without an exponent: zeros fill the places up to the unit, and as many digits
stand after the point as the exponent counts. -/
def magnitudeText (digits : Nat) : (exponent : Int) → List Char
  | .ofNat zeros => decimalText (digits * Nat.pow 10 zeros)
  | .negSucc places =>
    let unit := Nat.pow 10 (places + 1)
    let fraction := decimalText (digits % unit)
    decimalText (digits / unit) ++
      '.' :: (List.replicate (places + 1 - fraction.length) '0' ++ fraction)

def text (d : Decimal) : List Char :=
  if d.negative then '-' :: magnitudeText d.digits d.exponent
  else magnitudeText d.digits d.exponent

end Decimal

end DeskCalculator.Number
