/-!
Digits of natural numbers in a given base, least significant digit first, and their text in
capital letters, most significant digit first.
-/
namespace DeskCalculator.Number

/-- The digits of `value` in `base`, least significant first; zero has none, and a base below two
has no digits to offer. -/
def digits (base value : Nat) : List Nat :=
  if _h : 2 ≤ base ∧ 0 < value then value % base :: digits base (value / base) else []
termination_by value
decreasing_by exact Nat.div_lt_self _h.2 _h.1

def ofDigits (base : Nat) : List Nat → Nat
  | [] => 0
  | d :: rest => d + base * ofDigits base rest

theorem ofDigits_digits (base value : Nat) (hb : 2 ≤ base) :
    ofDigits base (digits base value) = value := by
  induction value using Nat.strongRecOn with
  | ind value ih =>
    rw [digits]
    split
    · next h =>
      rw [ofDigits, ih _ (Nat.div_lt_self h.2 h.1)]
      exact Nat.mod_add_div value base
    · next h =>
      have : value = 0 := by omega
      rw [this]; rfl

def digitChar (d : Nat) : Char :=
  if d < 10 then Char.ofNat (d + 48) else Char.ofNat (d + 55)

def radixText (base value : Nat) : List Char :=
  if value = 0 then ['0'] else (digits base value).reverse.map digitChar

def decimalText (value : Nat) : List Char := radixText 10 value

def integerText (value : Int) : List Char :=
  if value < 0 then '-' :: decimalText value.natAbs else decimalText value.natAbs

def hexDigit? (c : Char) : Option Nat :=
  if '0' ≤ c ∧ c ≤ '9' then some (c.toNat - 48)
  else if 'a' ≤ c ∧ c ≤ 'f' then some (c.toNat - 87)
  else if 'A' ≤ c ∧ c ≤ 'F' then some (c.toNat - 55)
  else none

def isHexDigit (c : Char) : Bool := (hexDigit? c).isSome

def hexValue (text : List Char) : Nat :=
  text.foldl (fun acc c => 16 * acc + (hexDigit? c).getD 0) 0

def decimalValue (text : List Char) : Nat :=
  text.foldl (fun acc c => 10 * acc + (c.toNat - 48)) 0

end DeskCalculator.Number
