import DeskCalculator.Proofs.Expression.Uses

/-!
The operations of an expression: its powers and its calls, in the order in which they stand in the
text. They can be told from the tokens alone, since a power has a token of its own and a name is
called just when an opening bracket follows it.
-/
namespace DeskCalculator.Expression

open Reading

/-- An operation whose meaning depends on the mode: a power, or the call of a name. -/
inductive Operation where
  | power
  | call (name : String)
deriving Repr, DecidableEq

mutual

def Tree.operations : Tree → List Operation
  | .number _ | .symbol _ _ => []
  | .signed _ body => body.operations
  | .sum _ left right | .product _ left right => left.operations ++ right.operations
  | .power base exponent => base.operations ++ .power :: exponent.operations
  | .call name _ arguments => .call name :: Tree.operationsOfAll arguments

def Tree.operationsOfAll : List Tree → List Operation
  | [] => []
  | tree :: rest => tree.operations ++ Tree.operationsOfAll rest

end

theorem Tree.operationsOfAll_append (trees others : List Tree) :
    operationsOfAll (trees ++ others) = operationsOfAll trees ++ operationsOfAll others := by
  induction trees with
  | nil => rfl
  | cons tree rest ih => simp only [List.cons_append, operationsOfAll, ih, List.append_assoc]

def Token.operation? (rest : List Token) : Token → Option Operation
  | power => some .power
  | identifier name => if rest.head? = some .leftParen then some (.call name) else none
  | _ => none

def operationsOf : List Token → List Operation
  | [] => []
  | token :: rest => (token.operation? rest).toList ++ operationsOf rest

theorem Sign.operation?_token (sign : Sign) (rest : List Token) :
    sign.token.operation? rest = none := by
  cases sign <;> rfl

theorem Scale.operation?_token (scale : Scale) (rest : List Token) :
    scale.token.operation? rest = none := by
  cases scale <;> rfl

/-- In front of a token that opens no call, operations are told from what stands there alone. -/
theorem operationsOf_append_cons (left : List Token) {token : Token} (h : token ≠ .leftParen)
    (right : List Token) :
    operationsOf (left ++ token :: right) =
      operationsOf left ++ ((token.operation? right).toList ++ operationsOf right) := by
  induction left with
  | nil => rfl
  | cons first rest ih =>
    have hhead : (rest ++ token :: right).head? = some .leftParen ↔
        rest.head? = some .leftParen := by
      cases rest with
      | nil => simpa using h
      | cons next rest => rfl
    have hsame : first.operation? (rest ++ token :: right) = first.operation? rest := by
      cases first with
      | identifier name => simp only [Token.operation?, hhead]
      | _ => rfl
    rw [List.cons_append, operationsOf, operationsOf, hsame, ih, List.append_assoc]

theorem operationsOf_closed (left : List Token) :
    operationsOf (left ++ [.rightParen]) = operationsOf left := by
  have hparen : Token.rightParen ≠ .leftParen := nofun
  rw [operationsOf_append_cons left hparen, operationsOf, List.append_nil]
  exact List.append_nil _

mutual

/-- The operations of a tree are those among its tokens, in order. -/
theorem IsSum.operations_eq : ∀ {lexemes tree}, IsSum lexemes tree →
    tree.operations = operationsOf (lexemes.map Lexeme.token)
  | _, _, .product h => h.operations_eq
  | _, _, .sum sign span ha hb => by
    have hparen : sign.token ≠ .leftParen := by cases sign <;> nofun
    rw [List.map_append, List.map_cons, operationsOf_append_cons _ hparen, sign.operation?_token,
      Tree.operations, ha.operations_eq, hb.operations_eq]
    rfl

theorem IsProduct.operations_eq : ∀ {lexemes tree}, IsProduct lexemes tree →
    tree.operations = operationsOf (lexemes.map Lexeme.token)
  | _, _, .signed h => h.operations_eq
  | _, _, .product scale span ha hb => by
    have hparen : scale.token ≠ .leftParen := by cases scale <;> nofun
    rw [List.map_append, List.map_cons, operationsOf_append_cons _ hparen, scale.operation?_token,
      Tree.operations, ha.operations_eq, hb.operations_eq]
    rfl

theorem IsSigned.operations_eq : ∀ {lexemes tree}, IsSigned lexemes tree →
    tree.operations = operationsOf (lexemes.map Lexeme.token)
  | _, _, .power h => h.operations_eq
  | _, _, .signed sign span h => by
    rw [List.map_cons, operationsOf, sign.operation?_token, Tree.operations, h.operations_eq]
    rfl

theorem IsPower.operations_eq : ∀ {lexemes tree}, IsPower lexemes tree →
    tree.operations = operationsOf (lexemes.map Lexeme.token)
  | _, _, .atom h => h.operations_eq
  | _, _, .power span ha hb => by
    have hparen : Token.power ≠ .leftParen := nofun
    rw [List.map_append, List.map_cons, operationsOf_append_cons _ hparen, Tree.operations,
      ha.operations_eq, hb.operations_eq]
    rfl

theorem IsAtom.operations_eq : ∀ {lexemes tree}, IsAtom lexemes tree →
    tree.operations = operationsOf (lexemes.map Lexeme.token)
  | _, _, .number span h => rfl
  | _, _, .symbol name span => rfl
  | _, _, .emptyCall name span left right => rfl
  | _, _, .call name span left right h => by
    simp only [List.map_cons, List.map_append, List.map_nil, operationsOf, operationsOf_closed,
      Tree.operations, h.operations_eq]
    rfl
  | _, _, .group left right h => by
    simp only [List.map_cons, List.map_append, List.map_nil, operationsOf, operationsOf_closed,
      h.operations_eq]
    rfl

theorem IsArguments.operations_eq : ∀ {lexemes arguments}, IsArguments lexemes arguments →
    Tree.operationsOfAll arguments = operationsOf (lexemes.map Lexeme.token)
  | _, _, .sum h => by
    rw [Tree.operationsOfAll, Tree.operationsOfAll, List.append_nil, h.operations_eq]
  | _, _, .comma span ha hb => by
    have hparen : Token.comma ≠ .leftParen := nofun
    rw [List.map_append, List.map_cons, operationsOf_append_cons _ hparen,
      Tree.operationsOfAll_append, Tree.operationsOfAll, Tree.operationsOfAll, List.append_nil,
      ha.operations_eq, hb.operations_eq]
    rfl

end

end DeskCalculator.Expression
