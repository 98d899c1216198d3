import DeskCalculator.Number.Numeral
import DeskCalculator.Toml.Value

/-!
TOML scalars other than strings: integers in four bases, fractions, booleans and dates. A scalar is
one word, except that a blank may stand between the date and the time of day.
-/
namespace DeskCalculator.Toml

open Number

/-- Takes out the underscores between digits. A text that does not begin and end with a digit, or
has two underscores in a row, is no digits. -/
def ungroup? (isDigit : Char → Bool) : List Char → Option (List Char)
  | [] => none
  | [c] => if isDigit c then some [c] else none
  | c :: '_' :: rest => if isDigit c then (ungroup? isDigit rest).map (c :: ·) else none
  | c :: rest => if isDigit c then (ungroup? isDigit rest).map (c :: ·) else none

def unsignedDigits? (word : List Char) : Option (List Char) :=
  match ungroup? Char.isDigit word with
  | some ('0' :: _ :: _) => none
  | digits? => digits?

def valueIn (base : Nat) (digits : List Char) : Nat :=
  digits.foldl (fun acc c => base * acc + (hexDigit? c).getD 0) 0

def isDigitIn (base : Nat) (c : Char) : Bool := (hexDigit? c).any (· < base)

def integer? (word : List Char) : Option Int := do
  let n : Int ←
    match word with
    | '0' :: 'x' :: rest => (ungroup? (isDigitIn 16) rest).map fun d => (valueIn 16 d : Int)
    | '0' :: 'o' :: rest => (ungroup? (isDigitIn 8) rest).map fun d => (valueIn 8 d : Int)
    | '0' :: 'b' :: rest => (ungroup? (isDigitIn 2) rest).map fun d => (valueIn 2 d : Int)
    | '-' :: rest => (unsignedDigits? rest).map fun d => -(decimalValue d : Int)
    | '+' :: rest => (unsignedDigits? rest).map fun d => (decimalValue d : Int)
    | _ => (unsignedDigits? word).map fun d => (decimalValue d : Int)
  if -0x8000000000000000 ≤ n ∧ n < 0x8000000000000000 then some n else none

def isExponent (word : List Char) : Bool := (ungroup? Char.isDigit (takeSign word).2).isSome

def isMark (c : Char) : Bool := c == 'e' || c == 'E'

/-- Whether an unsigned word is spelled like a fraction: an integer with a fractional part, an
exponent or both. -/
def isFractionSpelling (word : List Char) : Bool :=
  let whole := word.takeWhile fun c => c != '.' && !isMark c
  (unsignedDigits? whole).isSome &&
    match word.drop whole.length with
    | [] => false
    | '.' :: rest =>
      let digits := rest.takeWhile fun c => !isMark c
      (ungroup? Char.isDigit digits).isSome &&
        match rest.drop digits.length with
        | [] => true
        | _ :: exponent => isExponent exponent
    | _ :: exponent => isExponent exponent

def isFraction (word : List Char) : Bool :=
  let unsigned := (takeSign word).2
  unsigned == ['i', 'n', 'f'] || unsigned == ['n', 'a', 'n'] ||
    (isFractionSpelling unsigned &&
      (readDouble? (word.filter (· != '_'))).any fun x => !(x.isInf && 0.0 < x))

def twoDigits? (low high : Nat) (a b : Char) : Option Nat :=
  let n := decimalValue [a, b]
  if a.isDigit && b.isDigit && low ≤ n && n ≤ high then some n else none

def daysOf (year month : Nat) : Nat :=
  if month = 2 then
    if year % 4 = 0 ∧ (year % 100 ≠ 0 ∨ year % 400 = 0) then 29 else 28
  else if month ∈ [4, 6, 9, 11] then 30
  else 31

def takeDay? : List Char → Option (List Char)
  | y :: z :: v :: w :: '-' :: a :: b :: '-' :: c :: d :: rest => do
    if !(List.all [y, z, v, w] Char.isDigit) then none
    else
      let month ← twoDigits? 1 12 a b
      let _ ← twoDigits? 1 (daysOf (decimalValue [y, z, v, w]) month) c d
      return rest
  | _ => none

def takeTime? : List Char → Option (List Char)
  | a :: b :: ':' :: c :: d :: ':' :: e :: f :: rest => do
    let _ ← twoDigits? 0 23 a b
    let _ ← twoDigits? 0 59 c d
    let _ ← twoDigits? 0 60 e f
    match rest with
    | '.' :: fraction =>
      let digits := fraction.takeWhile Char.isDigit
      if digits.isEmpty then none else some (fraction.drop digits.length)
    | _ => some rest
  | _ => none

def isZone : List Char → Bool
  | [] => true
  | ['Z'] => true
  | ['z'] => true
  | [sign, a, b, ':', c, d] =>
    isSign sign && (twoDigits? 0 23 a b).isSome && (twoDigits? 0 59 c d).isSome
  | _ => false

def separatesTime (c : Char) : Bool := c == 'T' || c == 't' || c == ' '

def isDate (word : List Char) : Bool :=
  match takeDay? word with
  | some [] => true
  | some (c :: rest) => separatesTime c && (takeTime? rest).any isZone
  | none => takeTime? word == some []

def isScalarChar (c : Char) : Bool :=
  c.isAlphanum || c == '+' || c == '-' || c == '_' || c == '.' || c == ':'

/-- The word of a scalar at the front of a text. A day takes the time of day with it that follows
behind one blank. -/
def scalarWord (text : List Char) : List Char :=
  let word := text.takeWhile isScalarChar
  match takeDay? word, text.drop word.length with
  | some [], ' ' :: a :: b :: ':' :: rest =>
    if (twoDigits? 0 23 a b).isSome then
      word ++ ' ' :: a :: b :: ':' :: rest.takeWhile isScalarChar
    else word
  | _, _ => word

def ofWord? (word : List Char) : Option Value :=
  if word = ['t', 'r', 'u', 'e'] then some (.boolean true)
  else if word = ['f', 'a', 'l', 's', 'e'] then some (.boolean false)
  else
    match integer? word with
    | some n => some (.integer n)
    | none =>
      if isFraction word then some .fraction
      else if isDate word then some .date
      else none

def scalarValue? (text : List Char) : Option (Value × List Char) :=
  let word := scalarWord text
  (ofWord? word).map fun value => (value, text.drop word.length)

end DeskCalculator.Toml
