import DeskCalculator.Expression.Pending

/-!
The grammar of scientific expressions, with the tree that each derivation gives.

    sum     := product (('+' | '-') product)*
    product := signed (('*' | '/') signed)*
    signed  := ('+' | '-')* power
    power   := atom ['**' signed]
    atom    := number | name ['(' [sum (',' sum)*] ')'] | '(' sum ')'

Sums and products grow at their right end, so they associate to the left; a power takes a signed
operand as its exponent, so powers associate to the right and a sign in front of a base stands
outside the power. A number token gives the number that it spells. The rules say nothing about how
an expression is read.
-/
namespace DeskCalculator.Expression

open Reading

def Sign.token : Sign → Token
  | .plus => .plus
  | .minus => .minus

def Scale.token : Scale → Token
  | .times => .star
  | .over => .slash

mutual

inductive IsSum : List (Lexeme Token) → Tree → Prop
  | product {lexemes tree} (h : IsProduct lexemes tree) : IsSum lexemes tree
  | sum {left right a b} (sign span) (ha : IsSum left a) (hb : IsProduct right b) :
      IsSum (left ++ ⟨Sign.token sign, span⟩ :: right) (.sum sign a b)

inductive IsProduct : List (Lexeme Token) → Tree → Prop
  | signed {lexemes tree} (h : IsSigned lexemes tree) : IsProduct lexemes tree
  | product {left right a b} (scale span) (ha : IsProduct left a) (hb : IsSigned right b) :
      IsProduct (left ++ ⟨Scale.token scale, span⟩ :: right) (.product scale a b)

inductive IsSigned : List (Lexeme Token) → Tree → Prop
  | power {lexemes tree} (h : IsPower lexemes tree) : IsSigned lexemes tree
  | signed {lexemes tree} (sign span) (h : IsSigned lexemes tree) :
      IsSigned (⟨Sign.token sign, span⟩ :: lexemes) (.signed sign tree)

inductive IsPower : List (Lexeme Token) → Tree → Prop
  | atom {lexemes tree} (h : IsAtom lexemes tree) : IsPower lexemes tree
  | power {left right a b} (span) (ha : IsAtom left a) (hb : IsSigned right b) :
      IsPower (left ++ ⟨.power, span⟩ :: right) (.power a b)

inductive IsAtom : List (Lexeme Token) → Tree → Prop
  | number {spelling value} (span) (h : Number.readDouble? spelling.toList = some value) :
      IsAtom [⟨.number spelling, span⟩] (.number value)
  | symbol (name span) : IsAtom [⟨.identifier name, span⟩] (.symbol name span)
  | emptyCall (name span left right) :
      IsAtom [⟨.identifier name, span⟩, ⟨.leftParen, left⟩, ⟨.rightParen, right⟩]
        (.call name span [])
  | call {lexemes arguments} (name span left right) (h : IsArguments lexemes arguments) :
      IsAtom (⟨.identifier name, span⟩ :: ⟨.leftParen, left⟩ :: (lexemes ++ [⟨.rightParen, right⟩]))
        (.call name span arguments)
  | group {lexemes tree} (left right) (h : IsSum lexemes tree) :
      IsAtom (⟨.leftParen, left⟩ :: (lexemes ++ [⟨.rightParen, right⟩])) tree

inductive IsArguments : List (Lexeme Token) → List Tree → Prop
  | sum {lexemes tree} (h : IsSum lexemes tree) : IsArguments lexemes [tree]
  | comma {left right arguments tree} (span) (ha : IsArguments left arguments)
      (hb : IsSum right tree) :
      IsArguments (left ++ ⟨.comma, span⟩ :: right) (arguments ++ [tree])

end

/-- A token with only one spelling: an operator, a comma or a bracket. -/
def Token.IsFixed : Token → Prop
  | identifier _ | number _ | invalid => False
  | plus | minus | star | slash | power | comma | leftParen | rightParen => True

end DeskCalculator.Expression
