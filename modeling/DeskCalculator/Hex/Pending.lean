import DeskCalculator.Reading.Reader
import DeskCalculator.Expression.Tree
import DeskCalculator.Hex.Token

/-!
Reading hexadecimal expressions: signed literals, products of them and sums of those, without
brackets. As for scientific expressions, work is pending until its right operand has come.
-/
namespace DeskCalculator.Hex

open Reading
open Expression (Sign Scale)

inductive Tree where
  | literal (digits : String) (span : Span)
  | signed (sign : Sign) (body : Tree)
  | sum (sign : Sign) (left right : Tree)
  | product (scale : Scale) (left right : Tree)
deriving Repr, DecidableEq

/-- The left part of a sum, the left part of a product, and the signs of the operand to come, the
latest first. -/
structure Pending where
  sum : Option (Tree × Sign) := none
  product : Option (Tree × Scale) := none
  signs : List Sign := []

namespace Pending

def factor (work : Pending) (operand : Tree) : Tree :=
  work.signs.foldl (fun body sign => .signed sign body) operand

def term (work : Pending) (operand : Tree) : Tree :=
  match work.product with
  | some (left, scale) => .product scale left (work.factor operand)
  | none => work.factor operand

def total (work : Pending) (operand : Tree) : Tree :=
  match work.sum with
  | some (left, sign) => .sum sign left (work.term operand)
  | none => work.term operand

end Pending

/-- All that has been understood of an expression: the operand at hand, if one has come since the
last operator, and the pending work. -/
structure Progress where
  operand : Option Tree := none
  work : Pending := {}

namespace Progress

def take? (p : Progress) (lexeme : Lexeme Token) : Option Progress :=
  match p.operand, lexeme.token with
  | none, .literal digits => some { p with operand := some (.literal digits lexeme.span) }
  | none, .plus => some { p with work.signs := .plus :: p.work.signs }
  | none, .minus => some { p with work.signs := .minus :: p.work.signs }
  | some operand, .plus => some { work := { sum := some (p.work.total operand, .plus) } }
  | some operand, .minus => some { work := { sum := some (p.work.total operand, .minus) } }
  | some operand, .star =>
    some { work := { sum := p.work.sum, product := some (p.work.term operand, .times) } }
  | some operand, .slash =>
    some { work := { sum := p.work.sum, product := some (p.work.term operand, .over) } }
  | _, _ => none

def tree? (p : Progress) : Option Tree := p.operand.map p.work.total

end Progress

def Tree.reader : Reader Token Progress Tree where
  start := {}
  step := Progress.take?
  finish := Progress.tree?
  fixed := [.plus, .minus, .star, .slash]

def Tree.ofLexemes (length : Nat) (lexemes : List (Lexeme Token)) :
    Except (Complaint Token) Tree :=
  Tree.reader.read length lexemes

def Tree.ofText (text : String) : Except (Complaint Token) Tree :=
  Tree.ofLexemes text.utf8ByteSize (scan Token text)

end DeskCalculator.Hex
