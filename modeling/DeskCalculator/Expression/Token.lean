import DeskCalculator.Reading.Lexeme
import DeskCalculator.Number.Numeral
import DeskCalculator.Text.Blank

/-!
The tokens of a scientific expression. Numbers keep their spelling, names and numbers take as many
characters as they can, and two stars in a row are the power operator.
-/
namespace DeskCalculator.Expression

open Number Reading

inductive Token where
  | identifier (name : String)
  | number (spelling : String)
  | plus
  | minus
  | star
  | slash
  | power
  | comma
  | leftParen
  | rightParen
  | invalid
deriving Repr, DecidableEq

namespace Token

def isNameStart (c : Char) : Bool := c.isAlpha || c == '_'

def isNamePart (c : Char) : Bool := c.isAlphanum || c == '_'

def text : Token → String
  | identifier name => name
  | number spelling => spelling
  | plus => "+"
  | minus => "-"
  | star => "*"
  | slash => "/"
  | power => "**"
  | comma => ","
  | leftParen => "("
  | rightParen => ")"
  | invalid => "<invalid>"

/-- Only the small letter introduces an exponent: the capital one is a constant. -/
def isExponentMark (c : Char) : Bool := c == 'e'

def symbol? : List Char → Option (Token × Nat)
  | '*' :: '*' :: _ => some (power, 2)
  | '*' :: _ => some (star, 1)
  | '+' :: _ => some (plus, 1)
  | '-' :: _ => some (minus, 1)
  | '/' :: _ => some (slash, 1)
  | ',' :: _ => some (comma, 1)
  | '(' :: _ => some (leftParen, 1)
  | ')' :: _ => some (rightParen, 1)
  | _ => none

def name? : List Char → Option (Token × Nat)
  | [] => none
  | c :: rest =>
    if isNameStart c then
      let name := c :: rest.takeWhile isNamePart
      some (identifier (String.ofList name), name.length)
    else none

def number? (text : List Char) : Option (Token × Nat) :=
  (Numeral.scan? isExponentMark text).map fun (numeral, _) =>
    (number (String.ofList numeral.text), numeral.text.length)

def front? (text : List Char) : Option (Token × Nat) :=
  name? text <|> number? text <|> symbol? text

instance : Vocabulary Token := ⟨Text.isSeparator, front?, invalid, text⟩

end Token

end DeskCalculator.Expression
