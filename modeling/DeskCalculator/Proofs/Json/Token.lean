import DeskCalculator.Json.Token
import DeskCalculator.Proofs.Json.Quoted
import DeskCalculator.Proofs.Number.Digits
import DeskCalculator.Proofs.Reading.Scanning

/-!
The tokens of what is written in JSON: marks, texts in quotes, and natural numbers in decimal
digits. The blanks between them leave no token.
-/
namespace DeskCalculator.Json

open Number Reading

def EndsNumber (c : Char) : Prop := c.isDigit = false ∧ c ≠ '.' ∧ c ≠ 'e' ∧ c ≠ 'E'

namespace Token

theorem takeInteger_decimalText (n : ℕ) {c : Char} (hc : EndsNumber c) (rest : List Char) :
    takeInteger (decimalText n ++ c :: rest) = (decimalText n, c :: rest) := by
  have hdigits : ∀ d ∈ decimalText n, d.isDigit = true := fun d hd => isDigit_of_mem_decimalText hd
  have htake : (decimalText n ++ c :: rest).takeWhile Char.isDigit = decimalText n := by
    rw [List.takeWhile_append_of_pos hdigits, List.takeWhile_cons_of_neg (by simp [hc.1]),
      List.append_nil]
  have hdrop : (decimalText n ++ c :: rest).dropWhile Char.isDigit = c :: rest := by
    rw [List.dropWhile_append_of_pos hdigits, List.dropWhile_cons_of_neg (by simp [hc.1])]
  rcases decimalText_cases n with hzero | ⟨d, digits, hcons, hd⟩
  · rw [hzero]
    rfl
  · rw [takeInteger, htake, hdrop]
    intro text htext
    rw [hcons] at htext
    exact hd (List.cons.inj htext).1

theorem fractionLength_of_endsNumber {c : Char} (hc : EndsNumber c) (rest : List Char) :
    fractionLength (c :: rest) = 0 := by
  unfold fractionLength
  split
  · next heq => exact absurd (List.cons.inj heq).1 hc.2.1
  · rfl

theorem exponentLength_of_endsNumber {c : Char} (hc : EndsNumber c) (rest : List Char) :
    exponentLength (c :: rest) = 0 := by
  have hmark : ¬ (c == 'e' || c == 'E') = true := by simp [hc.2.2.1, hc.2.2.2]
  simp only [exponentLength]
  split
  · rfl
  · rw [if_neg hmark]

/-- A number that is written is found again, in front of anything that ends it. -/
theorem number?_decimalText (n : ℕ) {c : Char} (hc : EndsNumber c) (rest : List Char) :
    number? (decimalText n ++ c :: rest) =
      some (number (some n), (decimalText n).length) := by
  obtain ⟨d, digits, hcons, hdigit⟩ := exists_decimalText_eq_cons n
  have hsign : ¬ (decimalText n ++ c :: rest).head? = some '-' := by
    rw [hcons]
    rintro ⟨⟩
    exact absurd hdigit (by decide)
  have hnonempty : ¬ (decimalText n).isEmpty = true := by simp [hcons]
  simp only [number?, if_neg hsign, List.drop_zero, takeInteger_decimalText n hc,
    if_neg hnonempty, fractionLength_of_endsNumber hc, exponentLength_of_endsNumber hc,
    Nat.add_zero, Nat.zero_add, if_true, decimalValue_decimalText]

theorem front?_of_isDigit {c : Char} (h : c.isDigit = true) (rest : List Char) :
    front? (c :: rest) = number? (c :: rest) := by
  unfold front?
  split
  case h_12 => rfl
  all_goals simp_all

theorem isSeparator_of_isDigit {c : Char} (h : c.isDigit = true) : isSeparator c = false := by
  unfold isSeparator
  simp only [Bool.or_eq_false_iff, beq_eq_false_iff_ne]
  refine ⟨⟨⟨?_, ?_⟩, ?_⟩, ?_⟩ <;> (rintro rfl; exact absurd h (by decide))

end Token

theorem tokensOf_mark {c : Char} {token : Token} (hseparator : Token.isSeparator c = false)
    (hfront : ∀ rest, Token.front? (c :: rest) = some (token, 1)) (rest : List Char) :
    tokensOf Token (c :: rest) = token :: tokensOf Token rest :=
  @tokensOf_cons_append Token _ c [] rest token hseparator (hfront rest)

/-- A string that is written is read as one token. -/
theorem tokensOf_quote (text rest : List Char) :
    tokensOf Token (quote text ++ rest) =
      .string (some (String.ofList text)) :: tokensOf Token rest := by
  obtain ⟨pieces, hpieces, hjoin⟩ := exists_pieces text rest
  have hword : (text.flatMap encodeChar ++ ['"']) ++ rest =
      text.flatMap encodeChar ++ '"' :: rest := by
    rw [List.append_assoc, List.singleton_append]
  have hfront : Token.front? ('"' :: ((text.flatMap encodeChar ++ ['"']) ++ rest)) =
      some (.string (some (String.ofList text)),
        (text.flatMap encodeChar ++ ['"']).length + 1) := by
    rw [hword, Token.front?, hpieces]
    simp only [Option.map_some, hjoin, List.length_append, List.length_singleton]
  exact tokensOf_cons_append rfl hfront

theorem tokensOf_decimalText (n : ℕ) {c : Char} (hc : EndsNumber c) (rest : List Char) :
    tokensOf Token (decimalText n ++ c :: rest) =
      .number (some n) :: tokensOf Token (c :: rest) := by
  obtain ⟨d, digits, hcons, hdigit⟩ := exists_decimalText_eq_cons n
  have hnumber := Token.number?_decimalText n hc rest
  rw [hcons, List.cons_append, ← Token.front?_of_isDigit hdigit] at hnumber
  rw [hcons, List.cons_append]
  exact tokensOf_cons_append (Token.isSeparator_of_isDigit hdigit) hnumber

end DeskCalculator.Json
