import DeskCalculator.Number.Shortest

/-!
Doubles with a fixed number of decimal places. The exact binary value is rounded once, and a tie
goes to the even last digit.
-/
namespace DeskCalculator.Number

/-- The natural number nearest to `num / den`; a tie goes to the even one. -/
def roundQuotient (num den : Nat) : Nat :=
  let below := num / den
  let rest := num % den
  if 2 * rest < den || (2 * rest == den && below % 2 == 0) then below else below + 1

def roundToPlaces (places : Nat) (negative : Bool) (mantissa : Nat) (exponent : Int) : Decimal :=
  let (num, den) := fractionOf mantissa exponent
  ⟨negative, roundQuotient (num * Nat.pow 10 places) den, -(places : Int)⟩

def fixedText (places : Nat) (x : Float) : List Char :=
  match reading x with
  | .nan => nanText
  | .infinite negative => infinityText negative
  | .finite negative mantissa exponent =>
    (roundToPlaces places negative mantissa exponent).text

end DeskCalculator.Number
