import DeskCalculator.Number.Fixed
import DeskCalculator.Text.Blank

/-!
How results are shown. `plain` shows an evaluated number, without the noise that computing with
doubles leaves next to an integer; `grouped` shows an amount of money, with commas in its integer
part.
-/
namespace DeskCalculator.Number

def trimZeros (text : List Char) : List Char :=
  Text.dropTail (· == '.') (Text.dropTail (· == '0') text)

/-- A value nearer to an integer than this is shown as the integer. -/
def integerTolerance : Float := 1e-10

def fractionPlaces : Nat := 10

/-- The characters of a result: an integer when the value is next to one, else ten places without
the zeros at the end. Adding zero takes the sign off a negative zero. -/
def plainText (value : Float) : List Char :=
  let rounded := round value
  if (value - rounded).abs < integerTolerance then shortestText (rounded + 0.0)
  else trimZeros (fixedText fractionPlaces value)

def plain (value : Float) : String := String.ofList (plainText value)

def groupThousands (text : List Char) : List Char :=
  (go text.reverse).reverse
where
  /-- The same for a text that starts with its last character. -/
  go : List Char → List Char
    | a :: b :: c :: d :: rest => a :: b :: c :: ',' :: go (d :: rest)
    | short => short

def amountPlaces : Nat := 3

/-- The characters of an amount: at most three places, commas between the thousands of the integer
part, and no sign on a zero. -/
def groupedText (value : Float) : List Char :=
  let trimmed := trimZeros (fixedText amountPlaces value)
  let (sign, unsigned) :=
    match trimmed with
    | '-' :: rest => (['-'], rest)
    | _ => ([], trimmed)
  let text := sign ++ groupThousands (unsigned.takeWhile (· != '.')) ++
    unsigned.dropWhile (· != '.')
  if text = ['-', '0'] then ['0'] else text

def grouped (value : Float) : String := String.ofList (groupedText value)

def shortest (value : Float) : String := String.ofList (shortestText value)

end DeskCalculator.Number
