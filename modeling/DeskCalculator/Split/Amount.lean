import DeskCalculator.Number.Double

/-!
Amounts of money. Splitting a bill needs the four operations, rounding to an integer and a few
tests; doubles offer them with rounding errors, and rational numbers without.
-/
namespace DeskCalculator.Split

class Amount (α : Type) extends Add α, Sub α, Mul α, Div α where
  ofNat : Nat → α
  floor : α → α
  ceil : α → α
  remainder : α → α → α
  isFinite : α → Bool
  isPositive : α → Bool
  isZero : α → Bool

instance : Amount Float where
  ofNat := Number.ofNat
  floor := Number.floor
  ceil := Number.ceil
  remainder := Number.remainder
  isFinite := Float.isFinite
  isPositive x := 0.0 < x
  isZero x := x == 0.0

instance : Amount Rat where
  ofNat n := n
  floor x := x.floor
  ceil x := x.ceil
  remainder x y := x - y * (x / y).floor
  isFinite _ := true
  isPositive x := 0 < x
  isZero x := x == 0

inductive Rounding where
  /-- Drop the fraction. -/
  | truncate
  /-- Go up to the next multiple of a hundred. -/
  | upToHundred
deriving Repr, DecidableEq

def Rounding.apply {α : Type} [Amount α] (amount : α) : Rounding → α
  | truncate => Amount.floor amount
  | upToHundred => Amount.ceil (amount / Amount.ofNat 100) * Amount.ofNat 100

end DeskCalculator.Split
