import DeskCalculator.Reading.Lexeme

/-!
Expression trees. Names keep the bytes from which they were read, so that a name without meaning
can be pointed at; brackets leave no trace.
-/
namespace DeskCalculator.Expression

open Reading (Span)

inductive Sign where
  | plus
  | minus
deriving Repr, DecidableEq

inductive Scale where
  | times
  | over
deriving Repr, DecidableEq

inductive Tree where
  | number (value : Float)
  | symbol (name : String) (span : Span)
  | signed (sign : Sign) (body : Tree)
  | sum (sign : Sign) (left right : Tree)
  | product (scale : Scale) (left right : Tree)
  | power (base exponent : Tree)
  | call (name : String) (span : Span) (arguments : List Tree)
deriving Repr

end DeskCalculator.Expression
