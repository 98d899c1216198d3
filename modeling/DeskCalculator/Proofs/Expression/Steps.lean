import DeskCalculator.Proofs.Expression.Grammar
import DeskCalculator.Proofs.Reading.Viability

/-!
The steps of reading an expression, by what stands before the next token. Where an operand is
awaited, only a closing bracket is taken otherwise than as the beginning of an operand; behind an
operand, only an opening bracket is taken otherwise than as an operator.
-/
namespace DeskCalculator.Expression

open Reading

def Phase.operand? : Phase → Option Tree
  | .operand | .argument => none
  | .named name span => some (.symbol name span)
  | .operator tree => some tree

def Phase.AwaitsOperand : Phase → Prop
  | .operand | .argument => True
  | .named _ _ | .operator _ => False

namespace Progress

/-- Where an operand is awaited, a token is the beginning of one, or a closing bracket. -/
theorem take?_of_awaitsOperand {p : Progress} (h : p.phase.AwaitsOperand)
    {lexeme : Lexeme Token} (hne : lexeme.token ≠ .rightParen) :
    p.take? lexeme = p.takeOperand lexeme := by
  unfold take?
  cases hphase : p.phase with
  | operand => rfl
  | argument =>
    cases htoken : lexeme.token with
    | rightParen => exact absurd htoken hne
    | _ => rfl
  | named name span => simp [hphase, Phase.AwaitsOperand] at h
  | operator operand => simp [hphase, Phase.AwaitsOperand] at h

/-- Behind an operand, a token is an operator, or the opening bracket of a call. -/
theorem take?_of_operand {p : Progress} {operand : Tree} (h : p.phase.operand? = some operand)
    {lexeme : Lexeme Token} (hne : lexeme.token ≠ .leftParen) :
    p.take? lexeme = p.takeOperator operand lexeme.token := by
  unfold take?
  cases hphase : p.phase with
  | operand | argument => simp [hphase, Phase.operand?] at h
  | named name span =>
    obtain rfl : Tree.symbol name span = operand := by simpa [hphase, Phase.operand?] using h
    cases htoken : lexeme.token with
    | leftParen => exact absurd htoken hne
    | _ => rfl
  | operator other =>
    obtain rfl : other = operand := by simpa [hphase, Phase.operand?] using h
    rfl

/-- An operand with no bracket open completes the expression. -/
theorem tree?_of_operand {phase : Phase} {operand : Tree} (h : phase.operand? = some operand)
    (work : Pending) : tree? ⟨phase, work, []⟩ = some (work.total operand) := by
  cases phase with
  | operand | argument => simp [Phase.operand?] at h
  | named name span =>
    obtain rfl : Tree.symbol name span = operand := by simpa [Phase.operand?] using h
    rfl
  | operator other =>
    obtain rfl : other = operand := by simpa [Phase.operand?] using h
    rfl

/-- A lexeme where an operand is awaited, and the lexemes behind it. -/
theorem advance_cons_of_awaitsOperand {p q : Progress} (h : p.phase.AwaitsOperand)
    (lexeme : Lexeme Token) (hne : lexeme.token ≠ .rightParen)
    (htake : p.takeOperand lexeme = some q) (rest : List (Lexeme Token)) :
    Tree.reader.advance p (lexeme :: rest) = Tree.reader.advance q rest := by
  have hstep : p.take? lexeme = some q := (take?_of_awaitsOperand h hne).trans htake
  exact Tree.reader.advance_append_cons (Tree.reader.advance_nil p) hstep rest

/-- A lexeme behind an operand, and the lexemes behind it. -/
theorem advance_append_of_operand {p q next : Progress} {left : List (Lexeme Token)}
    (hleft : Tree.reader.advance p left = some q) {operand : Tree}
    (h : q.phase.operand? = some operand) (lexeme : Lexeme Token)
    (hne : lexeme.token ≠ .leftParen) (htake : q.takeOperator operand lexeme.token = some next)
    (right : List (Lexeme Token)) :
    Tree.reader.advance p (left ++ lexeme :: right) = Tree.reader.advance next right := by
  have hstep : q.take? lexeme = some next := (take?_of_operand h hne).trans htake
  exact Tree.reader.advance_append_cons hleft hstep right

/-- A number is taken only where an operand is awaited, and is one then. -/
theorem exists_readDouble?_of_take?_number {p next : Progress} {spelling : String} {span : Span}
    (h : p.take? ⟨.number spelling, span⟩ = some next) :
    p.phase.AwaitsOperand ∧ ∃ x, Number.readDouble? spelling.toList = some x ∧
      next.phase = .operator (.number x) := by
  by_cases hphase : p.phase.AwaitsOperand
  · have htake : p.takeOperand ⟨.number spelling, span⟩ = some next :=
      (take?_of_awaitsOperand hphase (by simp)).symm.trans h
    obtain ⟨x, hx, rfl⟩ := Option.map_eq_some_iff.mp htake
    exact ⟨hphase, x, hx, rfl⟩
  · unfold take? at h
    cases hcase : p.phase with
    | operand | argument => exact absurd (hcase ▸ trivial) hphase
    | named name start | operator operand =>
      rw [hcase] at h
      exact nomatch h

/-- An objection is made to a number where an operand is awaited. -/
theorem objection?_eq_some_iff {p : Progress} {lexeme : Lexeme Token} {message : String} :
    p.objection? lexeme = some message ↔ ∃ spelling, lexeme.token = .number spelling ∧
      p.phase.AwaitsOperand ∧ message = unconverted spelling := by
  unfold objection?
  cases hphase : p.phase <;> cases htoken : lexeme.token <;> simp [Phase.AwaitsOperand, eq_comm]

theorem takeOperand_sign (p : Progress) (sign : Sign) (span : Span) :
    p.takeOperand ⟨sign.token, span⟩ =
      some { p with phase := .operand, work.tight := .sign sign :: p.work.tight } := by
  cases sign <;> rfl

theorem takeOperator_sign (p : Progress) (operand : Tree) (sign : Sign) :
    p.takeOperator operand sign.token =
      some { p with phase := .operand, work := { sum := some (p.work.total operand, sign) } } := by
  cases sign <;> rfl

theorem takeOperator_scale (p : Progress) (operand : Tree) (scale : Scale) :
    p.takeOperator operand scale.token =
      some { p with
        phase := .operand
        work := { sum := p.work.sum, product := some (p.work.term operand, scale) } } := by
  cases scale <;> rfl

theorem sign_token_ne (sign : Sign) :
    sign.token ≠ .rightParen ∧ sign.token ≠ .leftParen := by
  cases sign <;> exact ⟨by decide, by decide⟩

theorem scale_token_ne (scale : Scale) : scale.token ≠ .leftParen := by
  cases scale <;> decide

end Progress

end DeskCalculator.Expression
