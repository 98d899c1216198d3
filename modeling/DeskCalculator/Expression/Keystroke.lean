import DeskCalculator.Text.Digit

/-!
From keystrokes to the text of an expression. The keypad writes `^` for the power operator and one
capital `E` for both the constant and the exponent of a number. Two replacements make the
difference explicit: `^` becomes `**`, and an `E` between a digit and a digit with an optional sign
becomes `e`.
-/
namespace DeskCalculator.Expression

open Text

def expandPower : List Char → List Char
  | [] => []
  | c :: rest => if c = '^' then '*' :: '*' :: expandPower rest else c :: expandPower rest

/-- Where a character stands with respect to the exponents found so far. -/
inductive ExponentPlace where
  /-- No digit that could carry an exponent stands directly before. -/
  | apart
  /-- A digit stands directly before, and no exponent has claimed it. -/
  | afterDigit
  /-- Between an `E` that was lowered and the first digit of its exponent. -/
  | inExponent
deriving Repr, DecidableEq

def startsExponent : List Char → Bool
  | [] => false
  | c :: rest =>
    isDecimalDigit c || ((c == '+' || c == '-') && (rest.head?.any isDecimalDigit))

/-- Lowers exponents from left to right. The digit behind a lowered `E` belongs to that exponent and
carries no exponent itself. -/
def lowerExponentsFrom : ExponentPlace → List Char → List Char
  | _, [] => []
  | .inExponent, c :: rest =>
    c :: lowerExponentsFrom (if isDecimalDigit c then .apart else .inExponent) rest
  | .afterDigit, 'E' :: rest =>
    if startsExponent rest then 'e' :: lowerExponentsFrom .inExponent rest
    else 'E' :: lowerExponentsFrom .apart rest
  | _, c :: rest =>
    c :: lowerExponentsFrom (if isDecimalDigit c then .afterDigit else .apart) rest

def lowerExponents (text : List Char) : List Char := lowerExponentsFrom .apart text

def normalizeChars (text : List Char) : List Char := lowerExponents (expandPower text)

def normalize (text : String) : String := String.ofList (normalizeChars text.toList)

end DeskCalculator.Expression
