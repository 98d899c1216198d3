import DeskCalculator.Proofs.Expression.Grammar

/-!
The names in an expression. A tree keeps them in the order in which they stand in the text, each
with the place of its lexeme and, if it is called, with the number of its arguments. So the names of
a tree are the identifiers among the lexemes from which it derives.
-/
namespace DeskCalculator.Expression

open Reading

/-- A name in an expression: as a symbol, or called with a number of arguments. -/
structure Use where
  name : String
  span : Span
  arguments : Option Nat
deriving Repr, DecidableEq

def Use.lexeme (use : Use) : Lexeme Token := ⟨.identifier use.name, use.span⟩

mutual

def Tree.uses : Tree → List Use
  | .number _ => []
  | .symbol name span => [⟨name, span, none⟩]
  | .signed _ body => body.uses
  | .sum _ left right | .product _ left right => left.uses ++ right.uses
  | .power base exponent => base.uses ++ exponent.uses
  | .call name span arguments => ⟨name, span, some arguments.length⟩ :: Tree.usesOfAll arguments

def Tree.usesOfAll : List Tree → List Use
  | [] => []
  | tree :: rest => tree.uses ++ Tree.usesOfAll rest

end

theorem Tree.usesOfAll_append (trees others : List Tree) :
    usesOfAll (trees ++ others) = usesOfAll trees ++ usesOfAll others := by
  induction trees with
  | nil => rfl
  | cons tree rest ih => simp only [List.cons_append, usesOfAll, ih, List.append_assoc]

def Token.isIdentifier : Token → Bool
  | identifier _ => true
  | _ => false

def identifiers (lexemes : List (Lexeme Token)) : List (Lexeme Token) :=
  lexemes.filter fun lexeme => lexeme.token.isIdentifier

@[simp] theorem identifiers_append (left right : List (Lexeme Token)) :
    identifiers (left ++ right) = identifiers left ++ identifiers right :=
  List.filter_append left right

@[simp] theorem identifiers_cons (lexeme : Lexeme Token) (rest : List (Lexeme Token)) :
    identifiers (lexeme :: rest) =
      if lexeme.token.isIdentifier then lexeme :: identifiers rest else identifiers rest :=
  List.filter_cons

@[simp] theorem identifiers_nil : identifiers [] = [] := rfl

@[simp] theorem Sign.isIdentifier_token (sign : Sign) : sign.token.isIdentifier = false := by
  cases sign <;> rfl

@[simp] theorem Scale.isIdentifier_token (scale : Scale) : scale.token.isIdentifier = false := by
  cases scale <;> rfl

mutual

/-- The names of a tree are the names among its lexemes, in order. -/
theorem IsSum.map_lexeme_uses : ∀ {lexemes tree}, IsSum lexemes tree →
    tree.uses.map Use.lexeme = identifiers lexemes
  | _, _, .product h => h.map_lexeme_uses
  | _, _, .sum sign span ha hb => by
    simp [Tree.uses, ha.map_lexeme_uses, hb.map_lexeme_uses]

theorem IsProduct.map_lexeme_uses : ∀ {lexemes tree}, IsProduct lexemes tree →
    tree.uses.map Use.lexeme = identifiers lexemes
  | _, _, .signed h => h.map_lexeme_uses
  | _, _, .product scale span ha hb => by
    simp [Tree.uses, ha.map_lexeme_uses, hb.map_lexeme_uses]

theorem IsSigned.map_lexeme_uses : ∀ {lexemes tree}, IsSigned lexemes tree →
    tree.uses.map Use.lexeme = identifiers lexemes
  | _, _, .power h => h.map_lexeme_uses
  | _, _, .signed sign span h => by simp [Tree.uses, h.map_lexeme_uses]

theorem IsPower.map_lexeme_uses : ∀ {lexemes tree}, IsPower lexemes tree →
    tree.uses.map Use.lexeme = identifiers lexemes
  | _, _, .atom h => h.map_lexeme_uses
  | _, _, .power span ha hb => by
    simp [Tree.uses, ha.map_lexeme_uses, hb.map_lexeme_uses, Token.isIdentifier]

theorem IsAtom.map_lexeme_uses : ∀ {lexemes tree}, IsAtom lexemes tree →
    tree.uses.map Use.lexeme = identifiers lexemes
  | _, _, .number span h => rfl
  | _, _, .symbol name span => rfl
  | _, _, .emptyCall name span left right => rfl
  | _, _, .call name span left right h => by
    simp [Tree.uses, Use.lexeme, h.map_lexeme_uses, Token.isIdentifier]
  | _, _, .group left right h => by simp [h.map_lexeme_uses, Token.isIdentifier]

theorem IsArguments.map_lexeme_uses : ∀ {lexemes arguments}, IsArguments lexemes arguments →
    (Tree.usesOfAll arguments).map Use.lexeme = identifiers lexemes
  | _, _, .sum h => by simp [Tree.usesOfAll, h.map_lexeme_uses]
  | _, _, .comma span ha hb => by
    simp [Tree.usesOfAll_append, Tree.usesOfAll, ha.map_lexeme_uses, hb.map_lexeme_uses,
      Token.isIdentifier]

end

/-- A name occurs in a tree only if it occurs among its lexemes. -/
theorem IsSum.mem_of_mem_uses {lexemes : List (Lexeme Token)} {tree : Tree}
    (h : IsSum lexemes tree) {use : Use} (huse : use ∈ tree.uses) : use.lexeme ∈ lexemes := by
  have hmem : use.lexeme ∈ identifiers lexemes :=
    h.map_lexeme_uses ▸ List.mem_map_of_mem huse
  exact (List.mem_filter.mp hmem).1

end DeskCalculator.Expression
