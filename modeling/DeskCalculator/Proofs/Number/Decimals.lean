import DeskCalculator.Number.Decimal
import DeskCalculator.Proofs.Number.Integral

/-!
Decimal numbers read as doubles. Every decimal number is read as the number rounded, also where a
table of powers of ten spares the long way and where the exponent alone decides.
-/
namespace DeskCalculator.Number

open Float.Model Float.Model.UnpackedFloat

/-- The powers of ten in the table are exact: five has at most 22 factors in them, and those fit
into a mantissa. -/
theorem exact_powerOfTen {e : ℕ} (he : e < Float.exactlyRepresentablePowersOfTen.size) :
    Float.exactlyRepresentablePowersOfTen[e].isFinite = true ∧
      exact Float.exactlyRepresentablePowersOfTen[e] = 10 ^ e := by
  have hall : ∀ i : Fin 23, Float.exactlyRepresentablePowersOfTen[i.val].isFinite = true ∧
      reading Float.exactlyRepresentablePowersOfTen[i.val] =
        .finite false (5 ^ i.val * 2 ^ (52 - Nat.log2 (5 ^ i.val)))
          (i.val - (52 - Nat.log2 (5 ^ i.val) : ℕ)) := by
    decide +kernel
  obtain ⟨hfinite, hreading⟩ := hall ⟨e, he⟩
  refine ⟨hfinite, ?_⟩
  have hten : (10 : ℚ) ^ e = 5 ^ e * 2 ^ e := by rw [← mul_pow]; norm_num
  rw [exact_of_reading hreading, Reading.value, hten]
  generalize 52 - Nat.log2 (5 ^ e) = s
  rw [zpow_sub₀ two_ne_zero, zpow_natCast, zpow_natCast]
  simp only [Bool.false_eq_true, if_false]
  push_cast
  field_simp

theorem exact_toFloat {n : ℕ} (hn : n < 2 ^ 53) :
    n.toUInt64.toFloat.isFinite = true ∧ exact n.toUInt64.toFloat = n := by
  have hsize : n.toUInt64.toNat = n := Nat.mod_eq_of_lt (hn.trans (by norm_num))
  have hrounded : IsRounded (Reading.finite false n 0).value n.toUInt64.toFloat := by
    refine ⟨UnpackedFloat.normalize Format.binary64 n 0 .positive, ?_, ?_⟩
    · exact rounds_normalize n 0 .positive
    · conv_rhs => rw [← hsize]
      rfl
  obtain ⟨hfinite, hexact⟩ := hrounded.of_natCast hn
  exact ⟨hfinite, hexact.trans (by simp [Reading.value])⟩

/-- What lies beyond the range of doubles is an infinity, whatever number it is. -/
theorem isRounded_infinity {n j : ℕ} (hj : 1024 ≤ j) (hn : 2 ^ j ≤ n) :
    IsRounded n (.ofModel (pack (.infinity .positive))) := by
  obtain ⟨k, t, hrounds, -⟩ := round_eq .positive n 0
  rw [zpow_zero, mul_one] at hrounds
  have ht : 971 < t := by
    by_contra hle
    have hstep := two_zpow_le (not_lt.mp hle)
    have hbound : (2 : ℚ) ^ j ≤ n := by exact_mod_cast hn
    have hpow : (2 : ℚ) ^ 53 * 2 ^ (971 : ℤ) ≤ 2 ^ j := by
      rw [← zpow_natCast, ← zpow_natCast, ← zpow_add₀ two_ne_zero]
      exact two_zpow_le (by omega)
    have hmul : (2 : ℚ) ^ 53 * 2 ^ t ≤ 2 ^ 53 * 2 ^ (971 : ℤ) := by gcongr
    exact absurd (hrounds.fits.trans_le (hmul.trans hpow)) (not_lt.mpr hbound)
  have hinfinite : (pack (unpacked .positive k t)).unpack = .infinity .positive := by
    rcases fits_or_infinite hrounds .positive with hfits | hinfinite
    · have hk := hrounds.two_pow_le
      rw [unpacked, dif_neg (by omega)] at hfits
      split_ifs at hfits
      all_goals exact absurd hfits.2 (by omega)
    · exact hinfinite
  refine ⟨unpacked .positive k t, ?_, ?_⟩
  · exact rounds_signed .positive (Nat.cast_nonneg n) ⟨k, t, hrounds, rfl⟩
  · rw [← hinfinite, pack_unpack]

/-- What is nearer to zero than to the least positive double is zero. -/
theorem isRounded_zero {q : ℚ} (hnonneg : 0 ≤ q) (hq : q < 2 ^ (-1075 : ℤ)) :
    IsRounded q (.ofModel (pack (.zero .positive))) := by
  have hunit : (2 : ℚ) ^ (-1074 : ℤ) = 2 * 2 ^ (-1075 : ℤ) := by
    rw [← two_zpow_add_one]
    norm_num
  have hpos := two_zpow_pos (-1075)
  have hhalf : q / 2 ^ (-1074 : ℤ) < 1 / 2 := by
    rw [div_lt_iff₀ (two_zpow_pos _), hunit]
    linarith
  have hnear : |q / 2 ^ (-1074 : ℤ) - (0 : ℕ)| < 1 / 2 := by
    rw [Nat.cast_zero, sub_zero, abs_of_nonneg (div_nonneg hnonneg (two_zpow_pos _).le)]
    exact hhalf
  have hrounds : RoundsTo q 0 (-1074) :=
    { least := le_rfl
      full := Or.inl rfl
      fits := by rw [hunit]; linarith
      nearest := ⟨hnear.le, fun heq => absurd heq hnear.ne⟩ }
  exact ⟨_, rounds_signed .positive hnonneg ⟨0, -1074, hrounds, rfl⟩, rfl⟩

section Scientific

variable {m : ℕ} (hm : m ≠ 0)
include hm

/-- From the power `10 ^ 1024` on, a decimal number overflows. -/
theorem isRounded_of_large {n : ℕ} (hn : 1024 ≤ n) :
    IsRounded (m * 10 ^ (n : ℤ)) (.ofModel (pack (.infinity .positive))) := by
  have hvalue : (m : ℚ) * 10 ^ (n : ℤ) = (m * 10 ^ n : ℕ) := by
    rw [zpow_natCast]
    push_cast
    rfl
  rw [hvalue]
  apply isRounded_infinity hn
  calc 2 ^ n ≤ 10 ^ n := Nat.pow_le_pow_left (by norm_num) n
    _ ≤ m * 10 ^ n := Nat.le_mul_of_pos_left _ (Nat.pos_of_ne_zero hm)

omit hm in
/-- Below the least double, a decimal number underflows. -/
theorem isRounded_of_small {e : ℤ} (he : e ≤ 0) (hsmall : Nat.log2 m + 1 + e ≤ -1075) :
    IsRounded (m * 10 ^ e) (.ofModel (pack (.zero .positive))) := by
  apply isRounded_zero (by positivity)
  have hlog : (m : ℚ) < 2 ^ (Nat.log2 m + 1) := by exact_mod_cast Nat.lt_log2_self
  obtain ⟨n, hn⟩ := Int.eq_ofNat_of_zero_le (by omega : 0 ≤ -e)
  have hten : (10 : ℚ) ^ e ≤ 2 ^ e := by
    rw [← neg_neg e, hn, zpow_neg, zpow_neg, zpow_natCast, zpow_natCast]
    gcongr
    norm_num
  calc (m : ℚ) * 10 ^ e ≤ m * 2 ^ e := by gcongr
    _ < 2 ^ (Nat.log2 m + 1) * 2 ^ e := mul_lt_mul_of_pos_right hlog (two_zpow_pos e)
    _ = 2 ^ ((Nat.log2 m : ℤ) + 1 + e) := by
      rw [zpow_add₀ two_ne_zero ((Nat.log2 m : ℤ) + 1)]
      norm_cast
    _ ≤ 2 ^ (-1075 : ℤ) := two_zpow_le hsmall

/-- A number without decimal places is a product, of which one factor is lengthened so that no
digit is missing when the product is rounded. -/
theorem isRounded_product (n : ℕ) (hshift : 0 < m <<< 53) (hpow : 0 < 10 ^ n) :
    IsRounded (m * 10 ^ (n : ℤ)) (.ofModel (pack (UnpackedFloat.mul Format.binary64
      (.finite .positive (m <<< 53) (-53) hshift) (.finite .positive (10 ^ n) 0 hpow)))) := by
  have hlong : 2 ^ 52 ≤ m <<< 53 * 10 ^ n := by
    calc 2 ^ 52 ≤ m * 2 ^ 53 := by omega
      _ = m <<< 53 := (Nat.shiftLeft_eq ..).symm
      _ ≤ m <<< 53 * 10 ^ n := Nat.le_mul_of_pos_right _ hpow
  have hvalue : (m : ℚ) * (10 : ℚ) ^ (n : ℤ) =
      (m <<< 53 : ℕ) * 2 ^ (-53 : ℤ) * ((10 ^ n : ℕ) * 2 ^ (0 : ℤ)) := by
    rw [Nat.shiftLeft_eq, zpow_natCast, zpow_zero]
    push_cast
    norm_num
    ring
  have hproduct := @mul_eq (m <<< 53) (10 ^ n) (-53) 0 .positive .positive hshift hpow
    (Or.inl hlong)
  rw [← hvalue] at hproduct
  exact ⟨_, rounds_signed .positive (by positivity) hproduct, rfl⟩

omit hm in
/-- A number with decimal places is a quotient. -/
theorem isRounded_quotient (n : ℕ) (hm : 0 < m) (hpow : 0 < 10 ^ n) :
    IsRounded (m * 10 ^ (-n : ℤ)) (.ofModel (pack (UnpackedFloat.div Format.binary64
      (.finite .positive m 0 hm) (.finite .positive (10 ^ n) 0 hpow)))) := by
  have hvalue : (m : ℚ) * 10 ^ (-n : ℤ) = m * 2 ^ (0 : ℤ) / ((10 ^ n : ℕ) * 2 ^ (0 : ℤ)) := by
    rw [zpow_neg, zpow_natCast, zpow_zero]
    push_cast
    field_simp
  have hquotient := @div_eq m (10 ^ n) 0 0 .positive .positive hm hpow
  rw [← hvalue] at hquotient
  exact ⟨_, rounds_signed .positive (by positivity) hquotient, rfl⟩

end Scientific

theorem isRounded_ofScientific (m : ℕ) (e : ℤ) :
    IsRounded (m * 10 ^ e) (.ofModel (Float.Model.ofScientific m e)) := by
  have hbits : Format.binary64.exponentBits = 11 := rfl
  rw [Float.Model.ofScientific, UnpackedFloat.ofScientific]
  split_ifs with hm hlarge hsmall hnonneg
  · rw [hm, Nat.cast_zero, zero_mul]
    exact ⟨_, rounds_zero _, rfl⟩
  · rw [hbits] at hlarge
    obtain ⟨n, rfl⟩ := Int.eq_ofNat_of_zero_le (by omega : 0 ≤ e)
    exact isRounded_of_large hm (by omega)
  · rw [hbits] at hsmall
    exact isRounded_of_small (by omega) (by omega)
  · obtain ⟨n, rfl⟩ := Int.eq_ofNat_of_zero_le hnonneg
    exact isRounded_product hm n _ _
  · obtain ⟨n, hn⟩ := Int.eq_ofNat_of_zero_le (by omega : 0 ≤ -e)
    obtain rfl : e = -n := by omega
    have hplaces : (-(-(n : ℤ))).toNat = n := by omega
    simp only [hplaces]
    exact isRounded_quotient n _ _

/-- A decimal number is read as itself rounded. -/
theorem isRounded_toFloat (digits : ℕ) (e : ℤ) :
    IsRounded (digits * 10 ^ e) (Decimal.toFloat ⟨false, digits, e⟩) := by
  change IsRounded _ (Float.ofScientific digits (e < 0) e.natAbs)
  rw [Float.ofScientific]
  by_cases hfast : digits < 2 ^ 53 ∧ e.natAbs ≤ 22
  · rw [dif_pos hfast]
    obtain ⟨hfinite, hexact⟩ := exact_toFloat hfast.1
    obtain ⟨hpower, hten⟩ := exact_powerOfTen (Nat.lt_succ_of_le hfast.2)
    cases e with
    | ofNat n =>
      have hproduct := isRounded_mul hfinite hpower
      rw [hexact, hten] at hproduct
      exact hproduct
    | negSucc n =>
      have hneg : decide (Int.negSucc n < 0) = true := decide_eq_true (Int.negSucc_lt_zero n)
      have hquotient := isRounded_div hfinite hpower (by rw [hten]; positivity)
      rw [hexact, hten, div_eq_mul_inv] at hquotient
      simp only [hneg, if_true]
      rw [zpow_negSucc]
      exact hquotient
  · rw [dif_neg hfast]
    cases e with
    | ofNat n => exact isRounded_ofScientific digits n
    | negSucc n =>
      have hneg : decide (Int.negSucc n < 0) = true := decide_eq_true (Int.negSucc_lt_zero n)
      simp only [hneg, if_true]
      exact isRounded_ofScientific digits (.negSucc n)

/-- Zero is read without a sign, whatever its exponent. -/
theorem toFloat_zero (e : ℤ) : Decimal.toFloat ⟨false, 0, e⟩ = 0.0 := by
  change Float.ofScientific 0 (e < 0) e.natAbs = 0.0
  rw [Float.ofScientific]
  by_cases hfast : 0 < 2 ^ 53 ∧ e.natAbs ≤ 22
  · have htable : ∀ i : Fin 23,
        (Nat.toUInt64 0).toFloat / Float.exactlyRepresentablePowersOfTen[i.val] = 0.0 ∧
          (Nat.toUInt64 0).toFloat * Float.exactlyRepresentablePowersOfTen[i.val] = 0.0 := by
      decide +kernel
    obtain ⟨hquotient, hproduct⟩ := htable ⟨e.natAbs, Nat.lt_succ_of_le hfast.2⟩
    rw [dif_pos hfast]
    split_ifs
    · exact hquotient
    · exact hproduct
  · have hmodel : (0.0 : Float) = .ofModel (pack (.zero .positive)) := by decide +kernel
    rw [dif_neg hfast, hmodel]
    rfl

/-- The double `x` is nearest to a magnitude with a sign. A zero keeps the sign that is written, of
which its value tells nothing. -/
structure IsNearestDouble (negative : Bool) (magnitude : ℚ) (x : Float) : Prop where
  rounded : IsRounded (if negative then -magnitude else magnitude) x
  zero : magnitude = 0 → x = if negative then -0.0 else 0.0

theorem IsNearestDouble.unique {negative : Bool} {magnitude : ℚ} {x y : Float}
    (hx : IsNearestDouble negative magnitude x) (hy : IsNearestDouble negative magnitude y) : x = y := by
  by_cases hzero : magnitude = 0
  · rw [hx.zero hzero, hy.zero hzero]
  · refine hx.rounded.unique hy.rounded ?_
    split_ifs
    · exact neg_ne_zero.mpr hzero
    · exact hzero

/-- A decimal number is read as the double nearest to it. -/
theorem isNearestDouble_toFloat (d : Decimal) :
    IsNearestDouble d.negative (d.digits * 10 ^ d.exponent) d.toFloat := by
  obtain ⟨negative, digits, e⟩ := d
  have hrounded := isRounded_toFloat digits e
  have hzero : (digits : ℚ) * 10 ^ e = 0 → Decimal.toFloat ⟨false, digits, e⟩ = 0.0 := by
    intro hvalue
    obtain rfl : digits = 0 := by
      have hpower : (10 : ℚ) ^ e ≠ 0 := zpow_ne_zero e (by norm_num)
      exact_mod_cast (mul_eq_zero.mp hvalue).resolve_right hpower
    exact toFloat_zero e
  cases negative with
  | false => exact ⟨hrounded, hzero⟩
  | true => exact ⟨hrounded.neg, fun hvalue => congrArg Neg.neg (hzero hvalue)⟩

end DeskCalculator.Number
