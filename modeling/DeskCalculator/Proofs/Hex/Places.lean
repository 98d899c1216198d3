import DeskCalculator.Proofs.Hex.Arithmetic
import DeskCalculator.Proofs.Hex.Spelling
import DeskCalculator.Proofs.Reading.Places

/-!
Places in hexadecimal expressions. A tree keeps its literals in the order in which they stand in the
text, and a text that is no expression is refused at one of its tokens or behind the last of them.
-/
namespace DeskCalculator.Hex

open Number Reading

def Tree.literals : Tree → List (String × Span)
  | literal digits span => [(digits, span)]
  | signed _ body => body.literals
  | sum _ left right | product _ left right => left.literals ++ right.literals

def Token.isLiteral : Token → Bool
  | literal _ => true
  | _ => false

def literalsOf (lexemes : List (Lexeme Token)) : List (String × Span) :=
  (lexemes.filter fun lexeme => lexeme.token.isLiteral).map
    fun lexeme => (Vocabulary.text lexeme.token, lexeme.span)

theorem literalsOf_append_cons (left right : List (Lexeme Token)) {lexeme : Lexeme Token}
    (h : lexeme.token.isLiteral = false) :
    literalsOf (left ++ lexeme :: right) = literalsOf left ++ literalsOf right := by
  simp [literalsOf, h]

theorem Token.isLiteral_ofSign (sign : Expression.Sign) : (ofSign sign).isLiteral = false := by
  cases sign <;> rfl

theorem Token.isLiteral_ofScale (scale : Expression.Scale) : (ofScale scale).isLiteral = false := by
  cases scale <;> rfl

section

variable {lexemes : List (Lexeme Token)} {tree : Tree}

theorem IsOperand.literals_eq (h : IsOperand lexemes tree) : tree.literals = literalsOf lexemes := by
  induction h with
  | literal digits span => rfl
  | @signed lexemes body sign span h ih =>
    exact ih.trans (literalsOf_append_cons [] lexemes (Token.isLiteral_ofSign sign)).symm

theorem IsProduct.literals_eq (h : IsProduct lexemes tree) : tree.literals = literalsOf lexemes := by
  induction h with
  | operand h => exact h.literals_eq
  | product scale span ha hb ih =>
    rw [literalsOf_append_cons _ _ (Token.isLiteral_ofScale scale), Tree.literals, ih,
      hb.literals_eq]

/-- The literals of a tree are the literals among its lexemes, in order. -/
theorem IsSum.literals_eq (h : IsSum lexemes tree) : tree.literals = literalsOf lexemes := by
  induction h with
  | product h => exact h.literals_eq
  | sum sign span ha hb ih =>
    rw [literalsOf_append_cons _ _ (Token.isLiteral_ofSign sign), Tree.literals, ih,
      hb.literals_eq]

end

/-- The literals of an expression stand in its text in their order, each where its span is. -/
theorem standInOrder_literals {text : String} {tree : Tree} (h : Tree.ofText text = .ok tree) :
    StandInOrder text tree.literals := by
  have hsum : IsSum (scan Token text) tree := (recognizes.read_eq_ok_iff _ _ _).mp h
  rw [hsum.literals_eq]
  exact Token.isRuledBy.standInOrder text Token.isLiteral rfl

/-- A text that is malformed is so at a place, unless it is blank. -/
theorem isPlacedIn_of_evaluate {text : String} {fault : Fault}
    (h : evaluate text = .error fault) (hkind : fault.failure.kind = .malformed) :
    fault.failure.IsPlacedIn Token text := by
  unfold evaluate at h
  by_cases hempty : Text.isEmpty text = true
  · rw [if_pos hempty] at h
    obtain rfl := Except.error.inj h
    exact Failure.isPlacedIn_of_isEmpty hempty rfl rfl
  · rw [if_neg hempty] at h
    cases hread : Tree.ofText text with
    | ok tree =>
      rw [hread] at h
      exact nomatch hkind.symm.trans (value_error h)
    | error complaint =>
      rw [hread] at h
      obtain rfl := Except.error.inj h
      exact Failure.isPlacedIn_of_pointsInto hempty rfl (Tree.reader.span_of_read_eq_error hread)

end DeskCalculator.Hex
