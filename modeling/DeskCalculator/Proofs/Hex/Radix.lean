import DeskCalculator.Proofs.Hex.Rendering
import Mathlib.Data.Nat.Digits.Lemmas

/-!
Numbers of 64 bits in every base from two to sixteen. A loop takes off the last digit until nothing
is left, which happens after 64 passes at the latest, and the text has these digits in reverse. They
are those of positional notation, so the text tells the number.
-/
namespace DeskCalculator.Hex

open Number

/-- How often the loop that takes off the last digit of a number is run through until nothing is
left, and the digits that it has taken. -/
inductive DigitLoop (base : ℕ) : (value passes : ℕ) → (taken : List ℕ) → Prop
  | done : DigitLoop base 0 0 []
  | pass {value passes : ℕ} {taken : List ℕ} (h : 0 < value)
      (hrest : DigitLoop base (value / base) passes taken) :
      DigitLoop base value (passes + 1) (value % base :: taken)

namespace DigitLoop

variable {base value passes passes' : ℕ} {taken taken' : List ℕ}

/-- The loop has one outcome only. -/
theorem unique (h : DigitLoop base value passes taken) (h' : DigitLoop base value passes' taken') :
    passes' = passes ∧ taken' = taken := by
  induction h generalizing passes' taken' with
  | done =>
    cases h' with
    | done => exact ⟨rfl, rfl⟩
    | pass hpos _ => exact absurd hpos (Nat.lt_irrefl 0)
  | pass hpos _ ih =>
    cases h' with
    | done => exact absurd hpos (Nat.lt_irrefl 0)
    | pass _ hrest =>
      obtain ⟨rfl, rfl⟩ := ih hrest
      exact ⟨rfl, rfl⟩

/-- The loop ends and leaves the digits behind. -/
theorem of_digits (hb : 2 ≤ base) (value : ℕ) :
    DigitLoop base value (digits base value).length (digits base value) := by
  fun_induction digits base value with
  | case1 value hvalue ih => exact .pass hvalue.2 ih
  | case2 value hvalue =>
    obtain rfl : value = 0 := by omega
    exact .done

end DigitLoop

section

variable {base : ℕ}

theorem digits_eq_natDigits (hb : 2 ≤ base) (value : ℕ) :
    digits base value = Nat.digits base value := by
  fun_induction digits base value with
  | case1 value hvalue ih => rw [Nat.digits_def' hvalue.1 hvalue.2, ih]
  | case2 value hvalue =>
    obtain rfl : value = 0 := by omega
    rw [Nat.digits_zero]

/-- A number of 64 bits has at most 64 digits, as many as in base two. -/
theorem length_digits_le (hb : 2 ≤ base) {value : ℕ} (hvalue : value < 2 ^ 64) :
    (digits base value).length ≤ 64 := by
  rw [digits_eq_natDigits hb, Nat.digits_length_le_iff hb]
  exact hvalue.trans_le (Nat.pow_le_pow_left hb 64)

theorem idxOf_digitChar {d : ℕ} (h : d < 16) : capitalDigits.idxOf (digitChar d) = d := by
  revert d
  decide

/-- The text of a number holds its digits, the last of them first when it is reversed. -/
theorem map_idxOf_reverse_radixText (hb : 2 ≤ base) (hlast : base ≤ 16) {value : ℕ}
    (hvalue : value ≠ 0) :
    (radixText base value).reverse.map capitalDigits.idxOf = digits base value := by
  have hdigit : ∀ d ∈ digits base value, capitalDigits.idxOf (digitChar d) = d := fun d hd =>
    idxOf_digitChar ((lt_base_of_mem_digits hb hd).trans_le hlast)
  rw [radixText, if_neg hvalue, ← List.map_reverse, List.reverse_reverse, List.map_map]
  exact (List.map_congr_left hdigit).trans (List.map_id _)

theorem ofDigits_radixText (hb : 2 ≤ base) (hlast : base ≤ 16) (value : ℕ) :
    Nat.ofDigits base ((radixText base value).reverse.map capitalDigits.idxOf) = value := by
  by_cases hvalue : value = 0
  · subst hvalue
    rfl
  · rw [map_idxOf_reverse_radixText hb hlast hvalue, digits_eq_natDigits hb,
      Nat.ofDigits_digits]

theorem idxOf_lt_of_mem_radixText (hb : 2 ≤ base) (hlast : base ≤ 16) {value : ℕ} {c : Char}
    (h : c ∈ radixText base value) : c ∈ capitalDigits ∧ capitalDigits.idxOf c < base := by
  obtain ⟨d, hd, rfl⟩ := exists_of_mem_radixText hb h
  have hdigit : d < 16 := hd.trans_le hlast
  exact ⟨digitChar_mem_capitalDigits hdigit, (idxOf_digitChar hdigit).trans_lt hd⟩

/-- A number of 64 bits is written in every base from two to sixteen. The loop that takes its digits
off ends after at most 64 passes, and they are what the text has, behind each other in reverse. They
are digits of the base, in capital letters, no zero leads them but the one of zero itself, and they
stand for the number in positional notation, so that no other number has the same text. -/
theorem radixText_is_positional (hb : 2 ≤ base) (hlast : base ≤ 16) {value : ℕ}
    (hvalue : value < 2 ^ 64) :
    let text := radixText base value
    (∃ passes ≤ 64, ∃ taken,
      (∀ passes' taken', DigitLoop base value passes' taken' ↔
        passes' = passes ∧ taken' = taken) ∧
        (value ≠ 0 → text.reverse.map capitalDigits.idxOf = taken)) ∧
      (∀ c ∈ text, c ∈ capitalDigits ∧ capitalDigits.idxOf c < base) ∧
      (text = ['0'] ∨ ∃ c rest, text = c :: rest ∧ c ≠ '0') ∧
      Nat.ofDigits base (text.reverse.map capitalDigits.idxOf) = value ∧
      ∀ other, radixText base other = text → other = value := by
  intro text
  have hpositional : Nat.ofDigits base (text.reverse.map capitalDigits.idxOf) = value :=
    ofDigits_radixText hb hlast value
  have hloop := DigitLoop.of_digits hb value
  refine ⟨⟨_, length_digits_le hb hvalue, digits base value, fun passes' taken' =>
    ⟨hloop.unique, ?_⟩, map_idxOf_reverse_radixText hb hlast⟩,
    fun c hc => idxOf_lt_of_mem_radixText hb hlast hc, radixText_cases hb hlast value, hpositional,
    ?_⟩
  · rintro ⟨rfl, rfl⟩
    exact hloop
  · intro other hsame
    rw [← ofDigits_radixText hb hlast other, hsame, hpositional]

/-- The greatest number of 64 bits in base two, which takes all the passes, and in base sixteen. -/
theorem radixText_is_positional_of_greatest :
    2 ≤ 16 ∧ 2 ^ 64 - 1 < 2 ^ 64 ∧ radixText 2 (2 ^ 64 - 1) = List.replicate 64 '1' ∧
      (∃ passes ≤ 64, DigitLoop 2 (2 ^ 64 - 1) passes (List.replicate 64 1)) ∧
      radixText 16 (2 ^ 64 - 1) = List.replicate 16 'F' ∧
      ∀ other, radixText 16 other = List.replicate 16 'F' → other = 2 ^ 64 - 1 := by
  have hbound : 2 ^ 64 - 1 < 2 ^ 64 := by decide
  have hbinary : radixText 2 (2 ^ 64 - 1) = List.replicate 64 '1' := by decide +kernel
  have hhexadecimal : radixText 16 (2 ^ 64 - 1) = List.replicate 16 'F' := by decide +kernel
  obtain ⟨⟨passes, hpasses, taken, hloop, htaken⟩, -⟩ :=
    radixText_is_positional (le_refl 2) (by decide) hbound
  have hdigits : List.replicate 64 1 = taken := by
    rw [← htaken (by decide), hbinary]
    decide
  obtain ⟨-, -, -, -, hinjective⟩ := radixText_is_positional (by decide) (le_refl 16) hbound
  rw [hhexadecimal] at hinjective
  exact ⟨by decide, hbound, hbinary, ⟨passes, hpasses, (hloop _ _).mpr ⟨rfl, hdigits⟩⟩,
    hhexadecimal, hinjective⟩

end

end DeskCalculator.Hex
