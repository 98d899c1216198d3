import DeskCalculator.Json.Quoted
import DeskCalculator.Reading.Lexeme

/-!
The tokens of JSON. A string that no text can hold is still a string, and a number that is no plain
natural number is still a number: whoever asks for a text or a natural number finds none.
-/
namespace DeskCalculator.Json

open Number Reading

inductive Token where
  | leftBrace
  | rightBrace
  | leftBracket
  | rightBracket
  | colon
  | comma
  | null
  | boolean (value : Bool)
  | number (natural? : Option Nat)
  | string (text? : Option String)
  | invalid
deriving Repr, DecidableEq

namespace Token

def takeInteger : List Char → List Char × List Char
  | '0' :: rest => (['0'], rest)
  | text => (text.takeWhile Char.isDigit, text.dropWhile Char.isDigit)

def fractionLength : List Char → Nat
  | '.' :: rest =>
    match rest.takeWhile Char.isDigit with
    | [] => 0
    | digits => digits.length + 1
  | _ => 0

def exponentLength : List Char → Nat
  | [] => 0
  | mark :: rest =>
    let signLength := if rest.head?.any fun c => c == '+' || c == '-' then 1 else 0
    match (rest.drop signLength).takeWhile Char.isDigit with
    | [] => 0
    | digits => if mark == 'e' || mark == 'E' then digits.length + signLength + 1 else 0

/-- The number at the front of a text. Only an integer without sign, fraction and exponent is a
natural number. -/
def number? (text : List Char) : Option (Token × Nat) :=
  let signLength := if text.head? = some '-' then 1 else 0
  let (integer, rest) := takeInteger (text.drop signLength)
  if integer.isEmpty then none
  else
    let fraction := fractionLength rest
    let exponent := exponentLength (rest.drop fraction)
    let natural? :=
      if signLength + fraction + exponent = 0 then some (decimalValue integer) else none
    some (number natural?, signLength + integer.length + fraction + exponent)

def front? : List Char → Option (Token × Nat)
  | [] => none
  | '{' :: _ => some (leftBrace, 1)
  | '}' :: _ => some (rightBrace, 1)
  | '[' :: _ => some (leftBracket, 1)
  | ']' :: _ => some (rightBracket, 1)
  | ':' :: _ => some (colon, 1)
  | ',' :: _ => some (comma, 1)
  | '"' :: rest =>
    (pieces? rest).map fun (pieces, length) =>
      (string ((join? pieces).map String.ofList), length + 1)
  | 'n' :: 'u' :: 'l' :: 'l' :: _ => some (null, 4)
  | 't' :: 'r' :: 'u' :: 'e' :: _ => some (boolean true, 4)
  | 'f' :: 'a' :: 'l' :: 's' :: 'e' :: _ => some (boolean false, 5)
  | text => number? text

def text : Token → String
  | leftBrace => "\x7b"
  | rightBrace => "\x7d"
  | leftBracket => "["
  | rightBracket => "]"
  | colon => ":"
  | comma => ","
  | null => "null"
  | boolean value => if value then "true" else "false"
  | number _ => "number"
  | string _ => "string"
  | invalid => "<invalid>"

def isSeparator (c : Char) : Bool := c == ' ' || c == '\t' || c == '\n' || c == '\r'

instance : Vocabulary Token := ⟨isSeparator, front?, invalid, text⟩

end Token

end DeskCalculator.Json
