import DeskCalculator.Proofs.Expression.Recognition

/-!
Which tokens an expression can have. No invalid token is ever taken, and behind a number comes an
operator or the end of the operand, so that a name never follows a number directly.
-/
namespace DeskCalculator.Expression

open Reading Progress

theorem take?_invalid (p : Progress) (span : Span) : p.take? ⟨.invalid, span⟩ = none := by
  unfold take?
  cases p.phase <;> rfl

/-- Whatever is taken is valid. -/
theorem valid_of_advance {p last : Progress} {lexemes : List (Lexeme Token)}
    (h : Tree.reader.advance p lexemes = some last) :
    ∀ lexeme ∈ lexemes, lexeme.token ≠ .invalid := by
  intro lexeme hmem hinvalid
  obtain ⟨token, span⟩ := lexeme
  obtain ⟨before, next, hstep⟩ := Tree.reader.exists_step_of_mem h hmem
  have htaken : before.take? ⟨.invalid, span⟩ = some next := hinvalid ▸ hstep
  exact nomatch (take?_invalid before span).symm.trans htaken

/-- Whether the second of two tokens is not a name behind a number. -/
def MayFollow (second first : Token) : Prop :=
  ∀ spelling name, first = .number spelling → second ≠ .identifier name

namespace IsSum

variable {lexemes : List (Lexeme Token)} {tree : Tree}

theorem valid (h : IsSum lexemes tree) : ∀ lexeme ∈ lexemes, lexeme.token ≠ .invalid := by
  obtain ⟨last, hadvance, -⟩ := (recognizes.derives_iff _ _).mp h
  exact valid_of_advance hadvance

/-- In an expression no name follows a number. -/
theorem isChain_mayFollow (h : IsSum lexemes tree) :
    (lexemes.map Lexeme.token).IsChain fun first second => MayFollow second first := by
  obtain ⟨last, hadvance, -⟩ := (recognizes.derives_iff _ _).mp h
  rw [List.isChain_map]
  refine (Tree.reader.isChain_of_advance hadvance).imp ?_
  rintro ⟨_, start⟩ ⟨_, stop⟩ ⟨before, between, after, hfirst, hsecond⟩ spelling name rfl rfl
  obtain ⟨-, x, -, hphase⟩ := exists_readDouble?_of_take?_number hfirst
  have hnone : between.take? ⟨.identifier name, stop⟩ = none := by
    rw [take?, hphase]
    rfl
  exact nomatch hnone.symm.trans hsecond

end IsSum

end DeskCalculator.Expression
