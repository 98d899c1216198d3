import DeskCalculator.Reading.Lexeme
import DeskCalculator.Number.Radix
import DeskCalculator.Text.Blank

/-!
The tokens of a hexadecimal expression. A run of hexadecimal digits is one literal, so the letters
from A to F never form names.
-/
namespace DeskCalculator.Hex

open Reading Number

inductive Token where
  | literal (digits : String)
  | plus
  | minus
  | star
  | slash
  | invalid
deriving Repr, DecidableEq

namespace Token

def text : Token → String
  | literal digits => digits
  | plus => "+"
  | minus => "-"
  | star => "*"
  | slash => "/"
  | invalid => "<invalid>"

def front? : List Char → Option (Token × Nat)
  | [] => none
  | '+' :: _ => some (plus, 1)
  | '-' :: _ => some (minus, 1)
  | '*' :: _ => some (star, 1)
  | '/' :: _ => some (slash, 1)
  | c :: rest =>
    if isHexDigit c then
      let digits := c :: rest.takeWhile isHexDigit
      some (literal (String.ofList digits), digits.length)
    else none

instance : Vocabulary Token := ⟨Text.isSeparator, front?, invalid, text⟩

end Token

end DeskCalculator.Hex
