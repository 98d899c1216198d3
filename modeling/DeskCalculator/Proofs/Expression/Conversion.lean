import DeskCalculator.Proofs.Expression.Spelling
import DeskCalculator.Proofs.Expression.Steps
import DeskCalculator.Proofs.Number.Literals

/-!
The conversion of numbers. Where an operand is awaited, a number token is converted to the double
that it spells, which fails for a token that spells none. The complaint is then about the spelling
and not about what else could have stood there. Number tokens that are cut from a text are literals,
so behind a scanner this complaint has no occasion.
-/
namespace DeskCalculator.Expression

open Number Reading

namespace Progress

/-- Whether reading lexemes from a state on comes to a number whose conversion fails. -/
inductive FailsToConvert : Progress → List (Lexeme Token) → String → Span → Prop
  | here {p spelling span rest} (hphase : p.phase.AwaitsOperand)
      (hread : readDouble? spelling.toList = none) :
      FailsToConvert p (⟨.number spelling, span⟩ :: rest) spelling span
  | later {p next lexeme rest spelling span} (htake : p.take? lexeme = some next)
      (h : FailsToConvert next rest spelling span) :
      FailsToConvert p (lexeme :: rest) spelling span

theorem FailsToConvert.exists_mem {p : Progress} {lexemes : List (Lexeme Token)}
    {spelling : String} {span : Span} (h : FailsToConvert p lexemes spelling span) :
    (∃ lexeme ∈ lexemes, lexeme.token = .number spelling) ∧ readDouble? spelling.toList = none := by
  induction h with
  | here hphase hread => exact ⟨⟨_, List.mem_cons_self .., rfl⟩, hread⟩
  | later htake h ih =>
    obtain ⟨⟨lexeme, hmem, htoken⟩, hread⟩ := ih
    exact ⟨⟨lexeme, List.mem_cons_of_mem _ hmem, htoken⟩, hread⟩

section

variable {p : Progress} {lexeme : Lexeme Token} {rest : List (Lexeme Token)}
  {spelling : String} {span : Span}

/-- A number is refused where an operand is awaited just when it cannot be converted. -/
theorem take?_number_eq_none_iff (hphase : p.phase.AwaitsOperand) :
    p.take? ⟨.number spelling, span⟩ = none ↔ readDouble? spelling.toList = none := by
  have htake : p.take? ⟨.number spelling, span⟩ = p.takeOperand ⟨.number spelling, span⟩ :=
    take?_of_awaitsOperand hphase (by simp)
  rw [htake]
  exact Option.map_eq_none_iff

/-- A lexeme that is refused ends the reading, whether or not it is a number. -/
theorem failsToConvert_cons_iff_of_none (htake : p.take? lexeme = none) :
    FailsToConvert p (lexeme :: rest) spelling span ↔
      lexeme = ⟨.number spelling, span⟩ ∧ p.phase.AwaitsOperand := by
  constructor
  · intro h
    cases h with
    | here hphase hread => exact ⟨rfl, hphase⟩
    | later htaken h => exact nomatch htake.symm.trans htaken
  · rintro ⟨rfl, hphase⟩
    exact .here hphase ((take?_number_eq_none_iff hphase).mp htake)

/-- Behind a lexeme that is taken, only a later conversion may fail. -/
theorem failsToConvert_cons_iff_of_some {next : Progress} (htake : p.take? lexeme = some next) :
    FailsToConvert p (lexeme :: rest) spelling span ↔ FailsToConvert next rest spelling span := by
  constructor
  · intro h
    cases h with
    | here hphase hread =>
      exact nomatch ((take?_number_eq_none_iff hphase).mpr hread).symm.trans htake
    | later htaken h => exact Option.some.inj (htaken.symm.trans htake) ▸ h
  · exact .later htake

end

/-- Of the lexemes that are refused, numbers are objected to where an operand is awaited. -/
theorem refusal_eq_custom_iff (p : Progress) (lexeme : Lexeme Token) (message : String)
    (span : Span) :
    Tree.reader.refusal p lexeme = .custom message span ↔
      ∃ spelling, (lexeme = ⟨.number spelling, span⟩ ∧ p.phase.AwaitsOperand) ∧
        message = unconverted spelling := by
  obtain ⟨token, place⟩ := lexeme
  unfold Reader.refusal
  cases hobjection : Tree.reader.objection? p ⟨token, place⟩ with
  | none =>
    simp only [reduceCtorEq, false_iff]
    rintro ⟨spelling, ⟨hlexeme, hphase⟩, -⟩
    have hsome := objection?_eq_some_iff.mpr
      ⟨spelling, congrArg Lexeme.token hlexeme, hphase, rfl⟩
    exact absurd (hobjection.symm.trans hsome) (by simp)
  | some objected =>
    obtain ⟨spelling, rfl, hphase, rfl⟩ := objection?_eq_some_iff.mp hobjection
    simp only [Complaint.custom.injEq, Lexeme.mk.injEq, Token.number.injEq]
    constructor
    · rintro ⟨rfl, rfl⟩
      exact ⟨spelling, ⟨⟨rfl, rfl⟩, hphase⟩, rfl⟩
    · rintro ⟨_, ⟨⟨rfl, rfl⟩, -⟩, rfl⟩
      exact ⟨rfl, rfl⟩

/-- Each failed conversion that reading comes to is reported, and nothing else is. -/
theorem readFrom_eq_custom_iff (length : Nat) (p : Progress) (lexemes : List (Lexeme Token))
    (message : String) (span : Span) :
    Tree.reader.readFrom length p lexemes = .error (.custom message span) ↔
      ∃ spelling, FailsToConvert p lexemes spelling span ∧ message = unconverted spelling := by
  induction lexemes generalizing p with
  | nil =>
    constructor
    · intro h
      cases hfinish : Tree.reader.finish p <;> simp [Reader.readFrom, hfinish] at h
    · rintro ⟨spelling, h, -⟩
      cases h
  | cons lexeme rest ih =>
    cases htake : p.take? lexeme with
    | some next =>
      have hstep : Tree.reader.step p lexeme = some next := htake
      simpa only [Reader.readFrom, hstep, failsToConvert_cons_iff_of_some htake] using ih next
    | none =>
      have hstep : Tree.reader.step p lexeme = none := htake
      simp only [Reader.readFrom, hstep, failsToConvert_cons_iff_of_none htake, Except.error.injEq]
      exact refusal_eq_custom_iff p lexeme message span

end Progress

section

variable {text : String} {lexeme : Lexeme Token} {spelling : String}

/-- What a number token of a text spells is a numeral by the rule. -/
theorem mem_numeral_of_mem_scan (hmem : lexeme ∈ scan Token text)
    (htoken : lexeme.token = .number spelling) :
    spelling.toList ∈ Grammar.numeral Token.isExponentMark := by
  obtain ⟨_, word, behind, -, -, hright⟩ :=
    (Token.isRuledBy.tiles_scanFrom 0 text.toList).covered lexeme hmem
  rw [htoken] at hright
  have hspells : Token.Spells (.number spelling) word := (hright.munch nofun).1.spelled
  rcases hspells with ⟨hname, -⟩ | ⟨hnumber, n, hproper, hword⟩ | ⟨hfixed, -⟩
  · exact nomatch hname
  · obtain rfl := Token.number.inj hnumber
    exact Grammar.mem_numeral_iff.mpr ⟨n, hproper, by rw [String.toList_ofList, hword]⟩
  · exact hfixed.elim

theorem mem_literal_of_mem_scan (hmem : lexeme ∈ scan Token text)
    (htoken : lexeme.token = .number spelling) : spelling.toList ∈ Grammar.literal :=
  Grammar.mem_literal_of_mem_numeral Token.isExponentMark_of_small
    (mem_numeral_of_mem_scan hmem htoken)

end

/-- No conversion of a number in a text fails. -/
theorem not_failsToConvert_scan (p : Progress) (text spelling : String) (span : Span) :
    ¬p.FailsToConvert (scan Token text) spelling span := by
  intro h
  obtain ⟨⟨lexeme, hmem, htoken⟩, hnone⟩ := h.exists_mem
  obtain ⟨x, hx⟩ := exists_readDouble?_of_literal (mem_literal_of_mem_scan hmem htoken)
  exact nomatch hnone.symm.trans hx

theorem Tree.ofText_ne_custom (text message : String) (span : Span) :
    Tree.ofText text ≠ .error (.custom message span) := by
  intro h
  obtain ⟨spelling, hfails, -⟩ :=
    (Progress.readFrom_eq_custom_iff _ Tree.reader.start _ message span).mp h
  exact not_failsToConvert_scan _ text spelling span hfails

end DeskCalculator.Expression
