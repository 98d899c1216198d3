import DeskCalculator.Proofs.Number.Digits
import DeskCalculator.Toml.Scalar
import Mathlib.Data.Int.Notation

/-!
Natural numbers read back. The digits of a number are one word, which no date and no other base
takes, and which has no leading zeros.
-/
namespace DeskCalculator.Toml

open Number

section Digits

variable {word : List Char} (h : ∀ c ∈ word, c.isDigit = true)
include h

theorem takeDay?_of_digits : takeDay? word = none := by
  unfold takeDay?
  split
  · exact absurd (h '-' (by simp)) (by decide)
  · rfl

theorem ungroup?_of_digits (hne : word ≠ []) : ungroup? Char.isDigit word = some word := by
  induction word with
  | nil => exact absurd rfl hne
  | cons c word ih =>
    obtain ⟨hc, hword⟩ := List.forall_mem_cons.mp h
    cases word with
    | nil => rw [ungroup?, if_pos hc]
    | cons d word =>
      rw [ungroup?, if_pos hc, ih hword (List.cons_ne_nil d word)]
      · rfl
      · exact fun heq => nomatch heq
      · rintro rest heq
        obtain ⟨rfl, -⟩ := List.cons.inj heq
        exact absurd (hword '_' List.mem_cons_self) (by decide)

theorem isScalarChar_of_isDigit {c : Char} (hc : c ∈ word) : isScalarChar c = true := by
  simp [isScalarChar, Char.isAlphanum, h c hc]

theorem scalarWord_append {c : Char} (hc : isScalarChar c = false) (rest : List Char) :
    scalarWord (word ++ c :: rest) = word := by
  have htake : (word ++ c :: rest).takeWhile isScalarChar = word := by
    rw [List.takeWhile_append_of_pos fun _ => isScalarChar_of_isDigit h,
      List.takeWhile_cons_of_neg (by simp [hc]), List.append_nil]
  unfold scalarWord
  simp only [htake, takeDay?_of_digits h]

end Digits

variable {n : ℕ}

theorem unsignedDigits?_decimalText (n : ℕ) :
    unsignedDigits? (decimalText n) = some (decimalText n) := by
  have hungroup : ungroup? Char.isDigit (decimalText n) = some (decimalText n) := by
    refine ungroup?_of_digits (fun _ => isDigit_of_mem_decimalText) ?_
    obtain ⟨c, digits, hcons, -⟩ := exists_decimalText_eq_cons n
    exact hcons ▸ List.cons_ne_nil c digits
  unfold unsignedDigits?
  rw [hungroup]
  rcases decimalText_cases n with hzero | ⟨c, digits, hcons, hc⟩
  · rw [hzero]
    rfl
  · rw [hcons]
    split
    · next heq => exact absurd (List.cons.inj (Option.some.inj heq)).1 hc
    · rfl

/-- A natural number that is written as an integer is read back. -/
theorem integer?_decimalText (h : n < 0x8000000000000000) :
    integer? (decimalText n) = some (n : ℤ) := by
  have hdigits : ∀ c ∈ decimalText n, c.isDigit = true := fun _ => isDigit_of_mem_decimalText
  have hletter : ∀ {c d : Char} {rest : List Char}, d.isDigit = false →
      decimalText n ≠ c :: d :: rest := by
    intro c d rest hd heq
    have hdigit := hdigits d (heq ▸ List.mem_cons_of_mem c List.mem_cons_self)
    exact Bool.false_ne_true (hd.symm.trans hdigit)
  have hsign : ∀ {c : Char} {rest : List Char}, c.isDigit = false →
      decimalText n ≠ c :: rest := by
    intro c rest hc heq
    exact Bool.false_ne_true (hc.symm.trans (hdigits c (heq ▸ List.mem_cons_self)))
  have hrange : -0x8000000000000000 ≤ (n : ℤ) ∧ (n : ℤ) < 0x8000000000000000 := by omega
  unfold integer?
  split
  case h_1 heq => exact absurd heq (hletter (by decide))
  case h_2 heq => exact absurd heq (hletter (by decide))
  case h_3 heq => exact absurd heq (hletter (by decide))
  case h_4 heq => exact absurd heq (hsign (by decide))
  case h_5 heq => exact absurd heq (hsign (by decide))
  case h_6 =>
    rw [unsignedDigits?_decimalText, Option.map_some, decimalValue_decimalText,
      Option.bind_eq_bind, Option.bind_some]
    dsimp only
    rw [if_pos hrange]

/-- The digits of a number that fits in 64 bits with sign are read as the number. -/
theorem scalarValue?_decimalText (h : n < 0x8000000000000000) {c : Char}
    (hc : isScalarChar c = false) (rest : List Char) :
    scalarValue? (decimalText n ++ c :: rest) = some (.integer n, c :: rest) := by
  have hdigits : ∀ c ∈ decimalText n, c.isDigit = true := fun _ => isDigit_of_mem_decimalText
  have hword := scalarWord_append hdigits hc rest
  have hvalue : ofWord? (decimalText n) = some (.integer n) := by
    have htrue : decimalText n ≠ ['t', 'r', 'u', 'e'] := fun heq =>
      absurd (hdigits 't' (heq ▸ List.mem_cons_self)) (by decide)
    have hfalse : decimalText n ≠ ['f', 'a', 'l', 's', 'e'] := fun heq =>
      absurd (hdigits 'f' (heq ▸ List.mem_cons_self)) (by decide)
    rw [ofWord?, if_neg htrue, if_neg hfalse, integer?_decimalText h]
  simp only [scalarValue?, hword, hvalue, Option.map_some, List.drop_left]

end DeskCalculator.Toml
