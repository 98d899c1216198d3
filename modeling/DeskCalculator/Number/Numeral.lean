import DeskCalculator.Number.Decimal

/-!
Numerals: the spelling of unsigned decimal numbers, digits with an optional point and an optional
exponent. `scan?` takes the longest numeral at the front of a text. Values typed as options or form
fields may carry a sign, and an option may also name an infinity or no number.
-/
namespace DeskCalculator.Number

structure ExponentPart where
  mark : Char
  sign : Option Char
  digits : List Char
deriving Repr, DecidableEq

/-- The parts of a numeral. Without a point the fraction is absent; one of whole part and fraction
has a digit. -/
structure Numeral where
  whole : List Char
  fraction : Option (List Char)
  exponent : Option ExponentPart
deriving Repr, DecidableEq

def isSign (c : Char) : Bool := c == '+' || c == '-'

def takeSign : List Char → Option Char × List Char
  | [] => (none, [])
  | c :: rest => if isSign c then (some c, rest) else (none, c :: rest)

def takeDigits (text : List Char) : List Char × List Char :=
  (text.takeWhile Char.isDigit, text.dropWhile Char.isDigit)

/-- Takes an exponent from the front of a text. A mark without digits behind it is no exponent and
stays where it is. -/
def takeExponent (isMark : Char → Bool) : List Char → Option ExponentPart × List Char
  | [] => (none, [])
  | mark :: tail =>
    let (sign, unsigned) := takeSign tail
    let (digits, rest) := takeDigits unsigned
    if isMark mark && !digits.isEmpty then (some ⟨mark, sign, digits⟩, rest)
    else (none, mark :: tail)

def takeFraction : List Char → Option (List Char) × List Char
  | '.' :: tail => let (digits, rest) := takeDigits tail; (some digits, rest)
  | text => (none, text)

namespace Numeral

/-- The longest numeral at the front of a text, and what follows it. `isMark` tells which letters
may introduce the exponent. -/
def scan? (isMark : Char → Bool) (text : List Char) : Option (Numeral × List Char) :=
  let (whole, afterWhole) := takeDigits text
  let (fraction, afterFraction) := takeFraction afterWhole
  if whole.isEmpty && (fraction.getD []).isEmpty then none
  else
    let (exponent, rest) := takeExponent isMark afterFraction
    some (⟨whole, fraction, exponent⟩, rest)

def text (n : Numeral) : List Char :=
  n.whole ++
    (match n.fraction with
      | some digits => '.' :: digits
      | none => []) ++
    (match n.exponent with
      | some e => e.mark :: (e.sign.toList ++ e.digits)
      | none => [])

def decimal (n : Numeral) : Decimal :=
  let fraction := n.fraction.getD []
  let shift : Int :=
    match n.exponent with
    | some e =>
      if e.sign = some '-' then -(decimalValue e.digits : Int) else (decimalValue e.digits : Int)
    | none => 0
  { negative := false
    digits := decimalValue (n.whole ++ fraction)
    exponent := shift - (fraction.length : Int) }

end Numeral

def isExponentMark (c : Char) : Bool := c == 'e' || c == 'E'

def namedDouble? (word : List Char) : Option Float :=
  if word = ['i', 'n', 'f'] ∨ word = ['i', 'n', 'f', 'i', 'n', 'i', 't', 'y'] then
    some (1.0 / 0.0)
  else if word = ['n', 'a', 'n'] then some (0.0 / 0.0)
  else none

/-- Reads a whole text as a double: an optional sign, then a numeral or, in any case of its letters,
`inf`, `infinity` or `nan`. -/
def readDouble? (text : List Char) : Option Float :=
  let (sign, unsigned) := takeSign text
  let magnitude? :=
    match Numeral.scan? isExponentMark unsigned with
    | some (numeral, []) => some numeral.decimal.toFloat
    | some _ => none
    | none => namedDouble? (unsigned.map Char.toLower)
  magnitude?.map fun magnitude => if sign = some '-' then -magnitude else magnitude

def readCount? (bound : Nat) (text : List Char) : Option Nat :=
  let digits :=
    match text with
    | '+' :: rest => rest
    | _ => text
  if digits.isEmpty || !digits.all Char.isDigit then none
  else if decimalValue digits < bound then some (decimalValue digits) else none

/-- Reads the number at the front of a form field, after blanks that the caller has dropped; what
follows it is ignored. -/
def readLeadingDouble? (text : List Char) : Option Float :=
  let (sign, unsigned) := takeSign text
  (Numeral.scan? isExponentMark unsigned).map fun (numeral, _) =>
    let magnitude := numeral.decimal.toFloat
    if sign = some '-' then -magnitude else magnitude

/-- Reads the integer at the front of a form field; what follows it is ignored, and an integer
outside the signed 64-bit range is refused. -/
def readLeadingInt? (text : List Char) : Option Int :=
  let (sign, unsigned) := takeSign text
  let (digits, _) := takeDigits unsigned
  let magnitude : Int := decimalValue digits
  let value := if sign = some '-' then -magnitude else magnitude
  if digits.isEmpty then none
  else if -0x8000000000000000 ≤ value ∧ value < 0x8000000000000000 then some value
  else none

end DeskCalculator.Number
