import DeskCalculator.Proofs.Number.Trimming

/-!
Doubles written as text. The fewest digits that read back do read back, also where the search for
them gives up and all digits are written; a fixed number of decimal places is nearest to the exact
value.
-/
namespace DeskCalculator.Number

open Float.Model.UnpackedFloat (ExtendedMantissa accuracyOfFraction)

theorem toFloat_of_readsBack {x : Float} {digits : ℕ} {grid : ℤ}
    (h : readsBack x digits grid = true) : Decimal.toFloat ⟨false, digits, grid⟩ = x :=
  Float.toBits_inj.mp (eq_of_beq h)

theorem readsBack_of_neighbour? {x : Float} {num den digits : ℕ} {grid : ℤ}
    (h : neighbour? x num den grid = some digits) : readsBack x digits grid = true := by
  simp only [neighbour?] at h
  split_ifs at h with hbelow habove
  · obtain rfl := Option.some.inj h
    exact (Bool.and_eq_true_iff.mp hbelow).1
  · obtain rfl := Option.some.inj h
    exact habove

/-- All digits together write the exact value. -/
theorem exactDecimal_value (m : ℕ) (e : ℤ) :
    ((exactDecimal m e).1 : ℚ) * 10 ^ (exactDecimal m e).2 = m * 2 ^ e := by
  cases e with
  | ofNat s => simp [exactDecimal]
  | negSucc s =>
    have hten : (10 : ℚ) ^ (s + 1) = 5 ^ (s + 1) * 2 ^ (s + 1) := by
      rw [← mul_pow]
      norm_num
    simp only [exactDecimal, zpow_negSucc, Nat.pow_eq, Nat.cast_mul, Nat.cast_pow, Nat.cast_ofNat,
      hten]
    field_simp

/-- Whatever digits are chosen for a double, they read back. -/
theorem toFloat_shortestDigits {x : Float} {m : ℕ} {e : ℤ} (hm : 0 < m)
    (hx : IsRounded (m * 2 ^ e) x) :
    Decimal.toFloat ⟨false, (shortestDigits x m e).1, (shortestDigits x m e).2⟩ = x := by
  have hpos : (0 : ℚ) < m * 2 ^ e := by positivity
  rw [shortestDigits]
  dsimp only
  generalize hfound : List.findSome? _ (List.range 18) = found
  cases found with
  | none =>
    -- No grid was fine enough: all digits are written, and nothing is rounded.
    have hexact := isRounded_toFloat (exactDecimal m e).1 (exactDecimal m e).2
    rw [exactDecimal_value] at hexact
    exact hexact.unique hx hpos.ne'
  | some place =>
    obtain ⟨n, -, hn⟩ := List.exists_of_findSome?_eq_some hfound
    obtain ⟨digits, hdigits, rfl⟩ := Option.map_eq_some_iff.mp hn
    exact toFloat_of_readsBack (readsBack_of_neighbour? hdigits)

theorem fractionOf_value (m : ℕ) (e : ℤ) :
    0 < (fractionOf m e).2 ∧ ((fractionOf m e).1 : ℚ) / (fractionOf m e).2 = m * 2 ^ e := by
  cases e with
  | ofNat s => exact ⟨one_pos, by simp [fractionOf]⟩
  | negSucc s =>
    refine ⟨Nat.two_pow_pos (s + 1), ?_⟩
    simp [fractionOf, zpow_negSucc, div_eq_mul_inv]

/-- Rounding a quotient for decimal places follows the rule of rounding to a double. -/
theorem roundQuotient_eq (num : ℕ) {den : ℕ} (hden : 0 < den) :
    roundQuotient num den = (ExtendedMantissa.ofMantissaAndAccuracy (num / den)
      (accuracyOfFraction (num % den) den)).roundedMantissa := by
  rw [roundQuotient, accuracyOfFraction]
  generalize num / den = below
  generalize num % den = rest
  rcases Nat.eq_zero_or_pos rest with rfl | hrest
  · rw [if_pos (by simpa using Or.inl hden), if_pos rfl]
    rfl
  · rw [if_neg hrest.ne']
    rcases hcmp : compare (2 * rest) den with _ | _ | _
    · have hlt := compare_lt_iff_lt.mp hcmp
      rw [if_pos (by simp [hlt])]
      rfl
    · have heq := compare_eq_iff_eq.mp hcmp
      have hrounded : (ExtendedMantissa.ofMantissaAndAccuracy below
          (.inexact .eq)).roundedMantissa = below + below % 2 := rfl
      rw [hrounded]
      rcases Nat.mod_two_eq_zero_or_one below with heven | hodd
      · rw [if_pos (by simp [heq, heven]), heven, add_zero]
      · rw [if_neg (by simp [heq, hodd]), hodd]
    · have hgt := compare_gt_iff_gt.mp hcmp
      rw [if_neg (by simp; omega)]
      rfl

theorem isNearest_roundQuotient (num : ℕ) {den : ℕ} (hden : 0 < den) :
    IsNearest (roundQuotient num den) (num / den) := by
  rw [cast_div_eq num hden, roundQuotient_eq num hden]
  exact (represents_fraction (num / den) (Nat.mod_lt num hden)).isNearest

def signedText (negative : Bool) (body : List Char) : List Char :=
  if negative then '-' :: body else body

theorem signedText_eq_append (negative : Bool) (body : List Char) :
    signedText negative body = (if negative then ['-'] else []) ++ body := by
  cases negative <;> rfl

/-- Whether a text is a plain numeral that writes `q`, with a minus sign before it where
`negative` says so. -/
def Shows (text : List Char) (negative : Bool) (q : ℚ) : Prop :=
  ∃ body, Writes body q ∧ text = signedText negative body

theorem Shows.of_mem {text : List Char} {negative : Bool} {q : ℚ} (h : Shows text negative q)
    {c : Char} (hc : c ∈ text) : c = '-' ∨ c.isDigit = true ∨ c = '.' := by
  obtain ⟨body, hbody, rfl⟩ := h
  cases negative with
  | false => exact .inr (hbody.of_mem hc)
  | true => exact (List.mem_cons.mp hc).imp_right hbody.of_mem

/-- The shortest text of a double that is not zero is that of its magnitude with its sign. -/
theorem shortestText_eq_signedText {y : Float} (hy : y.isFinite = true) (hne : exact y ≠ 0) :
    shortestText y = signedText (decide (exact y < 0)) (shortestText y.abs) := by
  obtain ⟨negative, m, e, hreading, -⟩ := exists_reading hy
  rw [decide_neg_of_reading hreading hne, shortestText, shortestText, hreading,
    reading_abs hreading]
  cases m with
  | zero =>
    rw [exact_of_reading hreading, Reading.value] at hne
    simp at hne
  | succ m => cases negative <;> rfl

section Fixed

variable {x : Float} (places : ℕ) {negative : Bool} {m : ℕ} {e : ℤ}

/-- With a fixed number of places, the nearest number of units of the last place is written. -/
theorem fixedText_eq (hreading : reading x = .finite negative m e) :
    ∃ k, IsNearest k (m * 2 ^ e * 10 ^ (places + 1)) ∧
      fixedText (places + 1) x = signedText negative (fixedNumeral k (places + 1)).text := by
  obtain ⟨hden, hvalue⟩ := fractionOf_value m e
  rw [fixedText, hreading]
  dsimp only [roundToPlaces]
  generalize fractionOf m e = fraction at hden hvalue
  obtain ⟨num, den⟩ := fraction
  have hscale : ((num * Nat.pow 10 (places + 1) : ℕ) : ℚ) / den =
      m * 2 ^ e * 10 ^ (places + 1) := by
    rw [← hvalue, Nat.pow_eq, Nat.cast_mul, Nat.cast_pow, Nat.cast_ofNat, mul_div_right_comm]
  refine ⟨_, hscale ▸ isNearest_roundQuotient (num * Nat.pow 10 (places + 1)) hden, ?_⟩
  rw [← magnitudeText_negSucc]
  rfl

theorem trimZeros_signedText (k : ℕ) :
    trimZeros (signedText negative (fixedNumeral k (places + 1)).text) =
      signedText negative (fixedNumeral k (places + 1)).trimmed.text := by
  rw [signedText_eq_append, signedText_eq_append]
  exact (isPlain_fixedNumeral k (places + 1)).trimZeros_text rfl _

theorem value_trimmed_fixedNumeral (k : ℕ) :
    (fixedNumeral k (places + 1)).trimmed.value = k / 10 ^ (places + 1) := by
  rw [(isPlain_fixedNumeral k (places + 1)).value_trimmed rfl,
    value_fixedNumeral k (Nat.succ_pos places), zpow_neg, zpow_natCast, ← div_eq_mul_inv]

end Fixed

end DeskCalculator.Number
