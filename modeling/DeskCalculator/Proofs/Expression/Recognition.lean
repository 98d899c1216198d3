import DeskCalculator.Proofs.Expression.Completeness
import DeskCalculator.Proofs.Expression.Soundness

/-!
The reader of expressions recognizes their grammar: it reads what has a tree, as this tree, and
nothing else. Whatever it has taken can be completed: a name serves where an operand is awaited, and
then every open bracket can be closed.
-/
namespace DeskCalculator.Expression

open Reading Progress

/-- Behind an operand, closing every open bracket completes the expression. -/
theorem exists_completion_of_operand (outer : List (Opening × Pending)) (phase : Phase)
    {operand : Tree} (h : phase.operand? = some operand) (work : Pending) :
    ∃ rest last tree, Tree.reader.advance ⟨phase, work, outer⟩ rest = some last ∧
      Tree.reader.finish last = some tree := by
  induction outer generalizing phase operand work with
  | nil => exact ⟨[], _, _, rfl, tree?_of_operand h work⟩
  | cons opening outer ih =>
    have hclose : ∃ tree outside, takeOperator ⟨phase, work, opening :: outer⟩ operand .rightParen =
        some ⟨.operator tree, outside, outer⟩ := by
      obtain ⟨opened, outside⟩ := opening
      cases opened with
      | group => exact ⟨_, outside, rfl⟩
      | call name span arguments => exact ⟨_, outside, rfl⟩
    obtain ⟨closed, outside, htake⟩ := hclose
    obtain ⟨rest, last, tree, hadvance, hfinish⟩ := ih (.operator closed) rfl outside
    refine ⟨⟨.rightParen, 0, 0⟩ :: rest, last, tree, ?_, hfinish⟩
    rw [← hadvance]
    exact advance_append_of_operand (Tree.reader.advance_nil _) h ⟨.rightParen, 0, 0⟩ nofun htake
      rest

/-- Every state can be completed. -/
theorem exists_completion (p : Progress) :
    ∃ rest last tree, Tree.reader.advance p rest = some last ∧
      Tree.reader.finish last = some tree := by
  obtain ⟨phase, work, outer⟩ := p
  by_cases hphase : phase.AwaitsOperand
  · obtain ⟨rest, last, tree, hadvance, hfinish⟩ :=
      exists_completion_of_operand outer (.named "x" ⟨0, 0⟩) rfl work
    refine ⟨⟨.identifier "x", 0, 0⟩ :: rest, last, tree, ?_, hfinish⟩
    rw [← hadvance]
    exact advance_cons_of_awaitsOperand hphase ⟨.identifier "x", 0, 0⟩ nofun rfl rest
  · cases phase with
    | operand | argument => exact absurd trivial hphase
    | named name span => exact exists_completion_of_operand outer (.named name span) rfl work
    | operator operand => exact exists_completion_of_operand outer (.operator operand) rfl work

theorem isSome_takeOperand (p : Progress) (token : Token) (span other : Span) :
    (p.takeOperand ⟨token, span⟩).isSome = (p.takeOperand ⟨token, other⟩).isSome := by
  cases token <;> rfl

/-- Whether a token is taken does not depend on where it stands. -/
theorem isSome_take? (p : Progress) (token : Token) (span other : Span) :
    (p.take? ⟨token, span⟩).isSome = (p.take? ⟨token, other⟩).isSome := by
  unfold take?
  cases p.phase with
  | operand => exact isSome_takeOperand p token span other
  | argument =>
    dsimp only
    split
    · rfl
    · exact isSome_takeOperand p _ span other
  | named name start => cases token <;> rfl
  | operator operand => rfl

theorem recognizes : Tree.reader.Recognizes IsSum where
  derives_iff lexemes tree := by
    constructor
    · exact IsSum.exists_advance
    · intro hreached
      obtain ⟨last, hadvance, htree⟩ := hreached
      exact isSum_of_advance hadvance htree
  completable := exists_completion
  step_isSome := isSome_take?

theorem mem_fixed_iff (token : Token) : token ∈ Tree.reader.fixed ↔ token.IsFixed := by
  cases token <;> simp [Tree.reader, Token.IsFixed]

end DeskCalculator.Expression
