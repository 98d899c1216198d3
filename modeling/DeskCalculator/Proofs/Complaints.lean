import DeskCalculator.Proofs.Expression.Conversion
import DeskCalculator.Proofs.Expression.Recognition
import DeskCalculator.Proofs.Hex.Recognition

/-!
Where and why expressions are refused. Both readers recognize their grammars, so the complaint about
a refused text stands at the end of the longest part that some expression begins with, and lists the
tokens that could have stood there. Only a number that stands where a number may stand, and yet is
refused, is complained about for its spelling.
-/
namespace DeskCalculator

open Reading

namespace Expression

/-- Whether lexemes can go on with some number. -/
def AwaitsNumber (lexemes : List (Lexeme Token)) : Prop :=
  ∃ spelling span, IsViable (Sentence IsSum) (lexemes ++ [⟨.number spelling, span⟩])

section

variable {lexemes : List (Lexeme Token)} {state : Progress} {k : ℕ}

/-- A number can stand where the reader awaits an operand. -/
theorem awaitsNumber_iff (hstate : Tree.reader.advance Tree.reader.start lexemes = some state) :
    AwaitsNumber lexemes ↔ state.phase.AwaitsOperand := by
  constructor
  · rintro ⟨spelling, span, hviable⟩
    obtain ⟨next, htake⟩ :=
      Option.isSome_iff_exists.mp ((recognizes.isViable_concat_iff hstate _).mp hviable)
    exact (Progress.exists_readDouble?_of_take?_number htake).1
  · intro hphase
    refine ⟨"0", ⟨0, 0⟩, (recognizes.isViable_concat_iff hstate _).mpr ?_⟩
    have hread : Number.readDouble? "0".toList ≠ none := by decide +kernel
    exact Option.isSome_iff_ne_none.mpr
      fun hnone => hread ((Progress.take?_number_eq_none_iff hphase).mp hnone)

/-- Where a number may stand, only its spelling can be what is wrong with it. -/
theorem complaintOf_number (hstate : Tree.reader.advance Tree.reader.start lexemes = some state)
    (hawaits : AwaitsNumber lexemes) (length : ℕ) (spelling : String) (span : Span) :
    Tree.reader.complaintOf length state (some ⟨.number spelling, span⟩) =
      .custom (unconverted spelling) span := by
  have hobjection : Tree.reader.objection? state ⟨.number spelling, span⟩ =
      some (unconverted spelling) :=
    Progress.objection?_eq_some_iff.mpr ⟨spelling, rfl, (awaitsNumber_iff hstate).mp hawaits, rfl⟩
  simp [Reader.complaintOf, Reader.refusal, hobjection]

/-- An objection is made to no token but a number that stands where one may stand. -/
theorem objection?_eq_none
    (hstate : Tree.reader.advance Tree.reader.start (lexemes.take k) = some state)
    (hnumber : ∀ spelling span, lexemes[k]? = some ⟨.number spelling, span⟩ →
      ¬AwaitsNumber (lexemes.take k)) :
    ∀ lexeme ∈ lexemes[k]?, Tree.reader.objection? state lexeme = none := by
  rintro ⟨token, span⟩ hlexeme
  rw [Option.eq_none_iff_forall_ne_some]
  intro message hmessage
  obtain ⟨spelling, htoken, hphase, -⟩ := Progress.objection?_eq_some_iff.mp hmessage
  obtain rfl : token = .number spelling := htoken
  exact hnumber spelling span hlexeme ((awaitsNumber_iff hstate).mpr hphase)

end

end Expression

/-- Complaints about scientific and about hexadecimal expressions are precise. They stand where the
longest part ends that some expression begins with. What is found there and what was expected is
told in full, except that of a number where a number may stand it is told that its spelling gives no
double. -/
theorem refusal_pinpointed :
    (∀ length lexemes complaint, Expression.Tree.ofLexemes length lexemes = .error complaint →
      ∃ k, BreaksAt (Sentence Expression.IsSum) lexemes k ∧
        (∀ spelling span, lexemes[k]? = some ⟨.number spelling, span⟩ →
          Expression.AwaitsNumber (lexemes.take k) →
          Number.readDouble? spelling.toList = none ∧
            complaint = .custom (Expression.unconverted spelling) span) ∧
        ((∀ spelling span, lexemes[k]? = some ⟨.number spelling, span⟩ →
          ¬Expression.AwaitsNumber (lexemes.take k)) →
          PointsAt (Sentence Expression.IsSum) Expression.Token.IsFixed length lexemes k
            complaint)) ∧
    ∀ length lexemes complaint, Hex.Tree.ofLexemes length lexemes = .error complaint →
      Pinpoints (Sentence Hex.IsSum) Hex.Token.IsFixed length lexemes complaint := by
  constructor
  · intro length lexemes complaint hread
    obtain ⟨k, state, hbreaks, hstate, rfl, hrefused⟩ :=
      Expression.recognizes.exists_breaksAt hread
    refine ⟨k, hbreaks, ?_, ?_⟩
    · intro spelling span hlexeme hawaits
      have hphase := (Expression.awaitsNumber_iff hstate).mp hawaits
      refine ⟨(Expression.Progress.take?_number_eq_none_iff hphase).mp (hrefused _ hlexeme), ?_⟩
      rw [hlexeme]
      exact Expression.complaintOf_number hstate hawaits length spelling span
    · intro hnumber
      exact Expression.recognizes.pointsAt Expression.mem_fixed_iff hstate
        (Expression.objection?_eq_none hstate hnumber) length
  · intro length lexemes complaint hread
    obtain ⟨k, state, hbreaks, hstate, rfl, -⟩ := Hex.recognizes.exists_breaksAt hread
    exact ⟨k, hbreaks, Hex.recognizes.pointsAt Hex.mem_fixed_iff hstate (fun _ _ => rfl) length⟩

/-- A call without its bracket at the end of the text, and an operator where a hexadecimal operand
is awaited. -/
theorem refusal_pinpointed_at_open_call :
    let lexemes : List (Lexeme Expression.Token) := [⟨.identifier "sin", 0, 3⟩, ⟨.leftParen, 3, 4⟩]
    let complaint : Complaint Expression.Token :=
      .unexpected none [some .plus, some .minus, some .leftParen, some .rightParen] ⟨4, 5⟩
    Expression.Tree.ofLexemes 4 lexemes = .error complaint ∧
    Pinpoints (Sentence Expression.IsSum) Expression.Token.IsFixed 4 lexemes complaint ∧
    Hex.Tree.ofLexemes 3 [⟨.literal "A", 0, 1⟩, ⟨.plus, 1, 2⟩, ⟨.star, 2, 3⟩] =
      .error (.unexpected (some .star) [some .plus, some .minus] ⟨2, 3⟩) ∧
    Pinpoints (Sentence Hex.IsSum) Hex.Token.IsFixed 3
      [⟨.literal "A", 0, 1⟩, ⟨.plus, 1, 2⟩, ⟨.star, 2, 3⟩]
      (.unexpected (some .star) [some .plus, some .minus] ⟨2, 3⟩) := by
  intro lexemes complaint
  have hread : Expression.Tree.ofLexemes 4 lexemes = .error complaint := rfl
  obtain ⟨k, hbreaks, hnumber, hprecise⟩ := refusal_pinpointed.1 4 lexemes complaint hread
  refine ⟨hread, ⟨k, hbreaks, hprecise fun spelling span hlexeme hawaits => ?_⟩, rfl,
    refusal_pinpointed.2 _ _ _ rfl⟩
  exact nomatch (hnumber spelling span hlexeme hawaits).2

/-- A number that is no double. Whatever the valid expressions are, the complaint neither names it as
what was found nor says what was expected in its place. -/
theorem refusal_of_unreadable_number :
    let lexemes : List (Lexeme Expression.Token) := [⟨.number "1e", 0, 2⟩]
    ∃ complaint, Expression.Tree.ofLexemes 2 lexemes = .error complaint ∧
      complaint = .custom "invalid number '1e': invalid float literal" ⟨0, 2⟩ ∧
      ∀ IsSentence : List (Lexeme Expression.Token) → Prop,
        ¬Pinpoints IsSentence Expression.Token.IsFixed 2 lexemes complaint := by
  intro lexemes
  refine ⟨_, rfl, rfl, ?_⟩
  rintro IsSentence ⟨k, -, expected, hcomplaint, -⟩
  exact nomatch hcomplaint

end DeskCalculator
