import DeskCalculator.Reading.Reader
import DeskCalculator.Expression.Token
import DeskCalculator.Expression.Tree

/-!
Reading scientific expressions. While the right operand of an operator is still to come, the
operator and its left operand are pending; a weaker operator settles all pending work that binds
tighter. Sums and products therefore associate to the left. A prefix sign waits for the whole chain
of powers behind it, and a base waits for its exponent, which may be signed and a power itself, so
powers associate to the right. Each open bracket sets the work outside it aside.
-/
namespace DeskCalculator.Expression

open Reading

/-- Pending work that binds tighter than products: a sign, or a base whose exponent is to come. -/
inductive Tight where
  | sign (sign : Sign)
  | base (base : Tree)

namespace Tight

def apply (operand : Tree) : Tight → Tree
  | sign s => .signed s operand
  | base b => .power b operand

end Tight

/-- The pending work between the innermost open bracket and the operand at hand: the left part of a
sum, the left part of a product, and signs and bases, the latest first. -/
structure Pending where
  sum : Option (Tree × Sign) := none
  product : Option (Tree × Scale) := none
  tight : List Tight := []

namespace Pending

def factor (work : Pending) (operand : Tree) : Tree := work.tight.foldl Tight.apply operand

def term (work : Pending) (operand : Tree) : Tree :=
  match work.product with
  | some (left, scale) => .product scale left (work.factor operand)
  | none => work.factor operand

def total (work : Pending) (operand : Tree) : Tree :=
  match work.sum with
  | some (left, sign) => .sum sign left (work.term operand)
  | none => work.term operand

end Pending

/-- An open bracket: a group, or a call with the arguments before the one at hand. -/
inductive Opening where
  | group
  | call (name : String) (span : Span) (arguments : List Tree)

inductive Phase where
  /-- An operand. -/
  | operand
  /-- The first argument of a call, or its closing bracket. -/
  | argument
  /-- After a name: the bracket that makes it a call, or what follows an operand. -/
  | named (name : String) (span : Span)
  /-- After an operand: an operator, or the end of the bracket or the text. -/
  | operator (operand : Tree)

def unconverted (spelling : String) : String :=
  "invalid number '" ++ spelling ++ "': " ++
    if spelling.isEmpty then "cannot parse float from empty string" else "invalid float literal"

/-- All that has been understood of an expression: what may come next, the work pending inside the
innermost open bracket, and the open brackets, innermost first, each with the work outside it. -/
structure Progress where
  phase : Phase := .operand
  work : Pending := {}
  outer : List (Opening × Pending) := []

namespace Progress

def takeOperand (p : Progress) (lexeme : Lexeme Token) : Option Progress :=
  match lexeme.token with
  | .number spelling =>
    (Number.readDouble? spelling.toList).map fun value =>
      { p with phase := .operator (.number value) }
  | .identifier name => some { p with phase := .named name lexeme.span }
  | .plus => some { p with phase := .operand, work.tight := .sign .plus :: p.work.tight }
  | .minus => some { p with phase := .operand, work.tight := .sign .minus :: p.work.tight }
  | .leftParen => some ⟨.operand, {}, (.group, p.work) :: p.outer⟩
  | _ => none

def takeOperator (p : Progress) (operand : Tree) : Token → Option Progress
  | .plus =>
    some { p with phase := .operand, work := { sum := some (p.work.total operand, .plus) } }
  | .minus =>
    some { p with phase := .operand, work := { sum := some (p.work.total operand, .minus) } }
  | .star =>
    some { p with
      phase := .operand
      work := { sum := p.work.sum, product := some (p.work.term operand, .times) } }
  | .slash =>
    some { p with
      phase := .operand
      work := { sum := p.work.sum, product := some (p.work.term operand, .over) } }
  | .power => some { p with phase := .operand, work.tight := .base operand :: p.work.tight }
  | .comma =>
    match p.outer with
    | (.call name span arguments, outside) :: outer =>
      some ⟨.operand, {}, (.call name span (arguments ++ [p.work.total operand]), outside) :: outer⟩
    | _ => none
  | .rightParen =>
    match p.outer with
    | (.group, outside) :: outer => some ⟨.operator (p.work.total operand), outside, outer⟩
    | (.call name span arguments, outside) :: outer =>
      some ⟨.operator (.call name span (arguments ++ [p.work.total operand])), outside, outer⟩
    | [] => none
  | _ => none

def take? (p : Progress) (lexeme : Lexeme Token) : Option Progress :=
  match p.phase with
  | .operand => p.takeOperand lexeme
  | .argument =>
    match lexeme.token, p.outer with
    | .rightParen, (.call name span arguments, outside) :: outer =>
      some ⟨.operator (.call name span arguments), outside, outer⟩
    | _, _ => p.takeOperand lexeme
  | .named name span =>
    match lexeme.token with
    | .leftParen => some ⟨.argument, {}, (.call name span [], p.work) :: p.outer⟩
    | token => p.takeOperator (.symbol name span) token
  | .operator operand => p.takeOperator operand lexeme.token

/-- A number that is refused where an operand may come is one that cannot be converted. -/
def objection? (p : Progress) (lexeme : Lexeme Token) : Option String :=
  match p.phase, lexeme.token with
  | .operand, .number spelling | .argument, .number spelling => some (unconverted spelling)
  | _, _ => none

def tree? (p : Progress) : Option Tree :=
  match p.phase, p.outer with
  | .named name span, [] => some (p.work.total (.symbol name span))
  | .operator operand, [] => some (p.work.total operand)
  | _, _ => none

end Progress

def Tree.reader : Reader Token Progress Tree where
  start := {}
  step := Progress.take?
  finish := Progress.tree?
  objection? := Progress.objection?
  fixed := [.plus, .minus, .star, .slash, .power, .comma, .leftParen, .rightParen]

def Tree.ofLexemes (length : Nat) (lexemes : List (Lexeme Token)) :
    Except (Complaint Token) Tree :=
  Tree.reader.read length lexemes

def Tree.ofText (text : String) : Except (Complaint Token) Tree :=
  Tree.ofLexemes text.utf8ByteSize (scan Token text)

end DeskCalculator.Expression
