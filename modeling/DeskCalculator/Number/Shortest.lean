import DeskCalculator.Number.Decimal
import DeskCalculator.Number.Double

/-!
The shortest decimal number that reads back as a given double. The search goes from coarse to fine
decimal grids; on each grid the two neighbours of the double are the only candidates, and the first
grid with a neighbour that reads back decides the number of digits.
-/
namespace DeskCalculator.Number

/-- The quotient and remainder of `m · 2 ^ e` counted in units of `10 ^ grid`, with the unit that
the remainder is compared with. -/
structure OnGrid where
  below : Nat
  rest : Nat
  unit : Nat
deriving Repr, DecidableEq

def fractionOf (mantissa : Nat) : (exponent : Int) → Nat × Nat
  | .ofNat e => (mantissa * Nat.pow 2 e, 1)
  | .negSucc e => (mantissa, Nat.pow 2 (e + 1))

def onGrid (num den : Nat) : (grid : Int) → OnGrid
  | .ofNat g => let unit := den * Nat.pow 10 g; ⟨num / unit, num % unit, unit⟩
  | .negSucc g => let scaled := num * Nat.pow 10 (g + 1); ⟨scaled / den, scaled % den, den⟩

/-- The least `k` with `num / den < 10 ^ k`, for a positive fraction. -/
def decimalExponent (num den : Nat) : Int :=
  if den ≤ num then (digits 10 (num / den)).length
  else 1 - ((digits 10 ((den + num - 1) / num - 1)).length : Int)

def readsBack (x : Float) (digits : Nat) (grid : Int) : Bool :=
  (Decimal.toFloat ⟨false, digits, grid⟩).toBits == x.toBits

/-- The neighbour of the positive double `x` on a grid that reads back as `x`: the nearer one when
both do, and the upper one when both are equally near. -/
def neighbour? (x : Float) (num den : Nat) (grid : Int) : Option Nat :=
  let place := onGrid num den grid
  let below := readsBack x place.below grid
  let above := readsBack x (place.below + 1) grid
  if below && (!above || 2 * place.rest < place.unit) then some place.below
  else if above then some (place.below + 1)
  else none

/-- All digits of `m · 2 ^ e`, which is a decimal number because ten is twice five. -/
def exactDecimal (mantissa : Nat) : (exponent : Int) → Nat × Int
  | .ofNat e => (mantissa * Nat.pow 2 e, 0)
  | .negSucc e => (mantissa * Nat.pow 5 (e + 1), .negSucc e)

/-- The digits of the positive double `x = m · 2 ^ e` and the place of the last of them. Seventeen
digits tell all doubles apart, so the exact digits behind the search are a backstop. -/
def shortestDigits (x : Float) (mantissa : Nat) (exponent : Int) : Nat × Int :=
  let (num, den) := fractionOf mantissa exponent
  let top := decimalExponent num den
  ((List.range 18).findSome? fun (n : Nat) =>
      (neighbour? x num den (top - (n : Int))).map fun digits => (digits, top - (n : Int))).getD
    (exactDecimal mantissa exponent)

def infinityText (negative : Bool) : List Char :=
  if negative then ['-', 'i', 'n', 'f'] else ['i', 'n', 'f']

def nanText : List Char := ['N', 'a', 'N']

def shortestText (x : Float) : List Char :=
  match reading x with
  | .nan => nanText
  | .infinite negative => infinityText negative
  | .finite negative 0 _ => Decimal.text ⟨negative, 0, 0⟩
  | .finite negative (mantissa + 1) exponent =>
    let (digits, grid) := shortestDigits (nearest false (mantissa + 1) exponent)
      (mantissa + 1) exponent
    Decimal.text ⟨negative, digits, grid⟩

end DeskCalculator.Number
