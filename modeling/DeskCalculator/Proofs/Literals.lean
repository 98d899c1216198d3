import DeskCalculator.Proofs.Expression.Conversion
import DeskCalculator.Proofs.Keypad.LongestNumber

/-!
Numbers that are found are read. An expression and a form field are searched for numbers by rules of
their own, and what is found is then read as a double by a third rule. Each text that is found obeys
the third rule, so neither search finds a number in vain.
-/
namespace DeskCalculator

open Reading

namespace Number

variable {text word : List Char}

/-- Whether a word is what a search for words of a language finds at the front of a text. -/
def IsMatch (words : Language Char) (text word : List Char) : Prop :=
  IsMunch (fun (_ : Unit) word => word ∈ words) text () word

theorem mem_field_iff_signed :
    word ∈ Grammar.field ↔ ∃ number, Signed SpellsNumeral number word := by
  rw [Grammar.mem_field_iff]
  constructor
  · rintro ⟨sign, n, hsign, hproper, rfl⟩
    exact ⟨(sign, n), hsign, n.text, rfl, hproper, rfl⟩
  · rintro ⟨⟨sign, n⟩, hsign, _, rfl, hproper, rfl⟩
    exact ⟨sign, n, hsign, hproper, rfl⟩

/-- A match in a form field is the longest number with its sign. -/
theorem isMatch_field_iff : IsMatch Grammar.field text word ↔
    ∃ number, IsMunch (Signed SpellsNumeral) text number word := by
  constructor
  · intro h
    obtain ⟨number, hspelled⟩ := mem_field_iff_signed.mp h.spelled
    exact ⟨number, h.front, hspelled, fun other longer hfront hspells =>
      h.longest () longer hfront (mem_field_iff_signed.mpr ⟨other, hspells⟩)⟩
  · rintro ⟨number, h⟩
    refine ⟨h.front, mem_field_iff_signed.mpr ⟨number, h.spelled⟩, ?_⟩
    intro _ longer hfront hmem
    obtain ⟨other, hspells⟩ := mem_field_iff_signed.mp hmem
    exact h.longest other longer hfront hspells

/-- The number in front of a text is what its match is read as. -/
theorem readLeadingDouble?_of_isMatch (h : IsMatch Grammar.field text word) :
    readLeadingDouble? text = readDouble? word := by
  obtain ⟨⟨sign, n⟩, hmunch⟩ := isMatch_field_iff.mp h
  have hfound := (finds_signedNumeral.eq_some_iff isUnsigned_numeral.signed_told).mpr
    ⟨word, rfl, hmunch⟩
  obtain ⟨hsign, _, rfl, hproper, rfl⟩ := hmunch.spelled
  rw [readLeadingDouble?_eq, hfound, hproper.readDouble?_append hsign, Option.map_some,
    toFloat_signedDecimal]

end Number

open Expression Keypad Number in
/-- No number is found in vain. A whole text is read as a double just when it is a literal or, with
its sign, a name of what is not finite. The number tokens of a text are literals. So the reader,
which reports each failed conversion that it comes to and no other, has none to report of a text.
What a form field is searched for are literals too, and the field holds the double that its match is
read as. -/
theorem found_numbers_are_read :
    (∀ text, (∃ x, readDouble? text = some x) ↔
      text ∈ Grammar.literal ∨ text ∈ Grammar.named) ∧
    (∀ text, ∀ lexeme ∈ scan Token text, ∀ spelling, lexeme.token = .number spelling →
      spelling.toList ∈ Grammar.literal) ∧
    (∀ length lexemes message span,
      Tree.ofLexemes length lexemes = .error (.custom message span) ↔
        ∃ spelling, Tree.reader.start.FailsToConvert lexemes spelling span ∧
          message = unconverted spelling) ∧
    (∀ text message span, Tree.ofText text ≠ .error (.custom message span)) ∧
    (∀ word ∈ Grammar.field, word ∈ Grammar.literal) ∧
    ∀ field word, IsMatch Grammar.field (Text.trimFront field.toList) word →
      ∃ x, readDouble? word = some x ∧ floatField? field = some x := by
  refine ⟨fun _ => exists_readDouble?_iff, ?_, ?_, Tree.ofText_ne_custom, ?_, ?_⟩
  · intro text lexeme hmem spelling htoken
    exact mem_literal_of_mem_scan hmem htoken
  · intro length lexemes message span
    exact Progress.readFrom_eq_custom_iff length Tree.reader.start lexemes message span
  · intro word hword
    rwa [← Grammar.field_eq_literal]
  · intro field word hmatch
    have hliteral : word ∈ Grammar.literal := by
      rw [← Grammar.field_eq_literal]
      exact hmatch.spelled
    obtain ⟨x, hx⟩ := exists_readDouble?_of_literal hliteral
    exact ⟨x, hx, (readLeadingDouble?_of_isMatch hmatch).trans hx⟩

open Expression Keypad Number in
/-- A bare point with an exponent behind it, and marks of exponents that have no digits. -/
theorem found_numbers_are_read_before_marks :
    let text := "7.e-2*.5e+x"
    let field := "\u3000-.5E+x"
    ⟨.number "7.e-2", 0, 5⟩ ∈ scan Token text ∧ "7.e-2".toList ∈ Grammar.literal ∧
      ⟨.number ".5", 6, 8⟩ ∈ scan Token text ∧ ".5".toList ∈ Grammar.literal ∧
      ['-', '.', '5'] ∈ Grammar.field ∧ ['-', '.', '5'] ∈ Grammar.literal ∧
      IsMatch Grammar.field (Text.trimFront field.toList) ['-', '.', '5'] ∧
      readDouble? ['-', '.', '5'] = some (-0.5) ∧ floatField? field = some (-0.5) := by
  intro text field
  have hscan : scan Token text =
      [⟨.number "7.e-2", 0, 5⟩, ⟨.star, 5, 6⟩, ⟨.number ".5", 6, 8⟩, ⟨.identifier "e", 8, 9⟩,
        ⟨.plus, 9, 10⟩, ⟨.identifier "x", 10, 11⟩] := by
    decide +kernel
  have hmem : ⟨.number "7.e-2", 0, 5⟩ ∈ scan Token text ∧
      ⟨.number ".5", 6, 8⟩ ∈ scan Token text := by
    simp [hscan]
  have htrimmed : Text.trimFront field.toList = ['-', '.', '5', 'E', '+', 'x'] := by
    decide +kernel
  have hmatch : IsMatch Grammar.field (Text.trimFront field.toList) ['-', '.', '5'] := by
    have hfound : signedFront? numeral? ['-', '.', '5', 'E', '+', 'x'] =
        some ((some '-', ⟨[], some ['5'], none⟩), 3) := rfl
    rw [htrimmed]
    exact isMatch_field_iff.mpr ⟨_, finds_signedNumeral.isMunch_take hfound⟩
  obtain ⟨-, hnumber, -, -, hfield, hheld⟩ := found_numbers_are_read
  obtain ⟨x, hread, hvalue⟩ := hheld field _ hmatch
  have hx : readDouble? ['-', '.', '5'] = some (-0.5) := by decide +kernel
  obtain rfl := Option.some.inj (hread.symm.trans hx)
  exact ⟨hmem.1, hnumber text _ hmem.1 _ rfl, hmem.2, hnumber text _ hmem.2 _ rfl,
    hmatch.spelled, hfield _ hmatch.spelled, hmatch, hx, hvalue⟩

end DeskCalculator
