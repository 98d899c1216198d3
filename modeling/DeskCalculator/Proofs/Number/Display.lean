import DeskCalculator.Proofs.Number.Integers
import DeskCalculator.Proofs.Number.Tolerance

/-!
Results as they are displayed. A magnitude next to an integer is displayed as that integer and any
other as the nearest number of units of the tenth place; a minus sign stands where something is left
of a negative number. The number displayed, read as a double, is at most `10 ^ -10` from the result,
and is the result itself where that is an integer.
-/
namespace DeskCalculator.Number

inductive Displays (q : ℚ) : Numeral → Prop
  | integer {n written : ℕ} (hwritten : WritesInteger n written) (hnear : |q - n| < 1 / 10 ^ 10) :
      Displays q (wholeNumeral written)
  | fraction {k : ℕ} (hfar : ∀ n : ℕ, 1 / 10 ^ 10 ≤ |q - n|) (hbound : q < 2 ^ 53)
      (hnearest : IsNearest k (q * (10 ^ 10 : ℕ))) : Displays q (fixedNumeral k 10).trimmed

/-- What is far from all integers is not rounded to one. -/
theorem not_dvd_of_far {q : ℚ} {k : ℕ} (hfar : ∀ n : ℕ, 1 / 10 ^ 10 ≤ |q - n|)
    (hnearest : IsNearest k (q * (10 ^ 10 : ℕ))) : ¬ 10 ^ 10 ∣ k := by
  rintro ⟨n, rfl⟩
  have hnear := hnearest.abs_div_sub_le (by norm_num)
  rw [Nat.cast_mul, mul_div_cancel_left₀ _ (by norm_num), abs_sub_comm] at hnear
  have hlow := (hfar n).trans hnear
  norm_num at hlow

theorem Displays.isPlain {q : ℚ} {n : Numeral} (h : Displays q n) : n.IsPlain := by
  cases h with
  | @integer _ written _ _ => exact isPlain_wholeNumeral written
  | @fraction k _ _ _ => exact (isPlain_fixedNumeral k 10).trimmed rfl

theorem Displays.exists_writesInteger {j : ℕ} {n : Numeral} (h : Displays j n) :
    ∃ written, n = wholeNumeral written ∧ WritesInteger j written := by
  cases h with
  | @integer i written hwritten hnear =>
    have hhalf : |(j : ℚ) - (i : ℤ)| < 1 / 2 := hnear.trans (by norm_num)
    have hsame : (j : ℤ) = i := int_eq_of_near (by simp) hhalf
    obtain rfl : j = i := by exact_mod_cast hsame
    exact ⟨written, rfl, hwritten⟩
  | fraction hfar _ _ =>
    have hlow := hfar j
    rw [sub_self, abs_zero] at hlow
    norm_num at hlow

section Finite

variable {x : Float} (hx : x.isFinite = true)
include hx

theorem plainText_of_near (h : ∃ z : ℤ, |exact x - z| < 1 / 10 ^ 10) :
    plainText x = shortestText (round x + 0.0) :=
  if_pos ((next_to_integer_iff hx).mpr h)

theorem plainText_of_far (h : ¬ ∃ z : ℤ, |exact x - z| < 1 / 10 ^ 10) :
    plainText x = trimZeros (fixedText fractionPlaces x) :=
  if_neg (mt (next_to_integer_iff hx).mp h)

/-- A double that is near to an integer is shown as this integer. -/
theorem exists_displays_of_near (h : ∃ z : ℤ, |exact x - z| < 1 / 10 ^ 10) :
    ∃ n, Displays |exact x| n ∧
      plainText x = signedText (decide (exact x < 0 ∧ n.value ≠ 0)) n.text := by
  have hround := isFinite_round hx
  obtain ⟨z, hz⟩ := exists_int_round hx
  have hnear : |exact x - z| < 1 / 10 ^ 10 := by
    rw [← hz, ← sub_round_lt_iff hx, next_to_integer_iff hx]
    exact h
  have hvalue : |exact (round x)| = z.natAbs := by
    rw [hz, Nat.cast_natAbs, Int.cast_abs]
  obtain ⟨hfinite, hkept⟩ := (isRounded_ofNat z.natAbs).exact_of_double
    ((isFinite_abs _).trans hround) ((exact_abs _).trans hvalue)
  obtain ⟨written, hwritten⟩ := exists_writesInteger ⟨hfinite, hkept⟩
  refine ⟨wholeNumeral written, .integer hwritten ?_, ?_⟩
  · rw [Nat.cast_natAbs, Int.cast_abs]
    exact (abs_abs_sub_abs_le_abs_sub _ _).trans_lt hnear
  · have hsome : (wholeNumeral written).value ≠ 0 ↔ z ≠ 0 := by
      rw [value_wholeNumeral, Nat.cast_ne_zero, Ne, hwritten.eq_zero_iff, Int.natAbs_eq_zero]
    have hsign : exact (round x) < 0 ↔ exact x < 0 ∧ (wholeNumeral written).value ≠ 0 := by
      rw [hsome, hz]
      exact neg_iff_of_near (hnear.trans (by norm_num))
    rw [plainText_of_near hx h, shortestText_add_zero hround hvalue hwritten]
    simp only [hsign]

/-- Any other double is shown with ten places, less the zeros behind. -/
theorem exists_displays_of_far (h : ¬ ∃ z : ℤ, |exact x - z| < 1 / 10 ^ 10) :
    ∃ k, Displays |exact x| (fixedNumeral k 10).trimmed ∧
      fixedText fractionPlaces x = signedText (decide (exact x < 0)) (fixedNumeral k 10).text ∧
      (fixedNumeral k 10).trimmed.value ≠ 0 := by
  have hfar : ∀ n : ℕ, 1 / 10 ^ 10 ≤ |abs (exact x) - n| := by
    simpa only [exists_int_near_iff, not_exists, not_lt] using h
  have hnotint : ∀ z : ℤ, exact x ≠ z := by
    intro z hz
    refine h ⟨z, ?_⟩
    rw [hz, sub_self, abs_zero]
    positivity
  obtain ⟨negative, m, e, hreading, -⟩ := exists_reading hx
  obtain ⟨k, hnearest, htext⟩ := fixedText_eq 9 hreading
  have hunit : (10 : ℚ) ^ (9 + 1) = (10 ^ 10 : ℕ) := by norm_num
  rw [← abs_exact_of_reading hreading, hunit] at hnearest
  have hsign := decide_neg_of_reading hreading (by exact_mod_cast hnotint 0)
  refine ⟨k, .fraction hfar (abs_exact_lt_of_not_integer hx hnotint) hnearest, hsign ▸ htext, ?_⟩
  rw [value_trimmed_fixedNumeral 9]
  have hsome : k ≠ 0 := by
    rintro rfl
    exact not_dvd_of_far hfar hnearest (dvd_zero _)
  positivity

/-- Whatever finite result is displayed, it is displayed by the rule, with a minus sign where
something is left of a negative number. -/
theorem exists_displays :
    ∃ n, Displays |exact x| n ∧
      plainText x = signedText (decide (exact x < 0 ∧ n.value ≠ 0)) n.text := by
  by_cases h : ∃ z : ℤ, |exact x - z| < 1 / 10 ^ 10
  · exact exists_displays_of_near hx h
  · obtain ⟨k, hdisplays, htext, hsome⟩ := exists_displays_of_far hx h
    refine ⟨_, hdisplays, ?_⟩
    rw [plainText_of_far hx h, htext, trimZeros_signedText 9]
    simp only [hsome, ne_eq, not_false_eq_true, and_true]

end Finite

/-! A displayed result is read again as a double near to it. -/

/-- Reading adds no more to the distance than writing did. -/
theorem near_of_isRounded {x y : Float} (hx : x.isFinite = true) (hbound : |exact x| < 2 ^ 53)
    {q : ℚ} (hq : |q - abs (exact x)| ≤ 1 / 2 / 10 ^ 10) (hy : IsRounded q y) :
    y.isFinite = true ∧ |exact y - abs (exact x)| ≤ 1 / 10 ^ 10 := by
  have hnonneg := abs_nonneg (exact x)
  have hfinite : y.isFinite = true := by
    apply hy.isFinite
    apply le_greatest
    obtain ⟨hlow, hhigh⟩ := abs_le.mp hq
    norm_num at hlow hhigh hbound ⊢
    exact abs_le.mpr ⟨by linarith, by linarith⟩
  refine ⟨hfinite, ?_⟩
  have hnear := hy.abs_sub_le hfinite ((isFinite_abs x).trans hx)
  rw [exact_abs, abs_sub_comm (abs (exact x))] at hnear
  calc |exact y - abs (exact x)| ≤ |exact y - q| + |q - abs (exact x)| := abs_sub_le ..
    _ ≤ 1 / 2 / 10 ^ 10 + 1 / 2 / 10 ^ 10 := add_le_add (hnear.trans hq) hq
    _ = 1 / 10 ^ 10 := by norm_num

/-- What is shown is read as a double within the tolerance. -/
theorem Displays.reads {x : Float} (hx : x.isFinite = true) {n : Numeral}
    (h : Displays |exact x| n) {y : Float} (hy : IsRounded n.value y) :
    y.isFinite = true ∧ |exact y - abs (exact x)| ≤ 1 / 10 ^ 10 := by
  cases h with
  | @integer j written hwritten hnear =>
    rw [value_wholeNumeral] at hy
    have hwhole := hwritten.reads hy
    refine ⟨hwhole.isFinite, ?_⟩
    rw [hwhole.exact_eq, abs_sub_comm]
    exact hnear.le
  | @fraction k _ hbound hnearest =>
    have hnear := hnearest.abs_div_sub_le (by norm_num)
    rw [value_trimmed_fixedNumeral 9] at hy
    push_cast at hnear
    exact near_of_isRounded hx hbound hnear hy

theorem Displays.reads_natCast {j : ℕ} {n : Numeral} (h : Displays j n) {y : Float}
    (hy : IsRounded n.value y) : exact y = j := by
  obtain ⟨written, rfl, hwritten⟩ := h.exists_writesInteger
  rw [value_wholeNumeral] at hy
  exact (hwritten.reads hy).exact_eq

theorem ite_neg_abs (q : ℚ) : (if q < 0 then -|q| else |q|) = q := by
  split_ifs with hq
  · rw [abs_of_neg hq, neg_neg]
  · rw [abs_of_nonneg (not_lt.mp hq)]

theorem abs_ite_neg_sub_eq (q a : ℚ) : |(if q < 0 then -a else a) - q| = |a - abs q| := by
  split_ifs with hq
  · rw [abs_of_neg hq, ← abs_neg, neg_sub, sub_neg_eq_add, sub_neg_eq_add, add_comm]
  · rw [abs_of_nonneg (not_lt.mp hq)]

def withSign (negative : Bool) (y : Float) : Float := if negative then -y else y

theorem exact_withSign (negative : Bool) (y : Float) :
    exact (withSign negative y) = if negative then -exact y else exact y := by
  cases negative
  · rfl
  · exact exact_neg y

theorem isFinite_withSign (negative : Bool) (y : Float) :
    (withSign negative y).isFinite = y.isFinite := by
  cases negative
  · rfl
  · exact isFinite_neg y

/-- Whether a text, read as a double, is near to `x`, and is `x` itself where that is an integer. -/
def ShowsNear (text : List Char) (x : Float) : Prop :=
  ∃ negative q, Shows text negative q ∧ ∀ y, IsRounded q y →
    y.isFinite = true ∧ |exact (withSign negative y) - exact x| ≤ 1 / 10 ^ 10 ∧
      ∀ z : ℤ, exact x = z → exact (withSign negative y) = exact x

/-- What is displayed for a finite result shows a number near to it. -/
theorem showsNear_plainText {x : Float} (hx : x.isFinite = true) : ShowsNear (plainText x) x := by
  obtain ⟨n, hdisplays, htext⟩ := exists_displays hx
  refine ⟨_, n.value, ⟨n.text, ⟨n, hdisplays.isPlain, rfl, rfl⟩, htext⟩, ?_⟩
  intro y hy
  obtain ⟨hfinite, hnear⟩ := hdisplays.reads hx hy
  have hsigned : exact (withSign (decide (exact x < 0 ∧ n.value ≠ 0)) y) =
      if exact x < 0 then -exact y else exact y := by
    rw [exact_withSign]
    by_cases hzero : n.value = 0
    · rw [hzero] at hy
      simp [hzero, hy.exact_of_zero hfinite]
    · simp [hzero]
  rw [hsigned, abs_ite_neg_sub_eq]
  refine ⟨hfinite, hnear, ?_⟩
  intro z hz
  have hnat : |exact x| = z.natAbs := by
    rw [hz, Nat.cast_natAbs, Int.cast_abs]
  have hkept : exact y = |exact x| := by
    rw [hnat] at hdisplays ⊢
    exact hdisplays.reads_natCast hy
  rw [hkept, ite_neg_abs]

end DeskCalculator.Number
