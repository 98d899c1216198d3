import DeskCalculator.Proofs.Number.Printing
import DeskCalculator.Proofs.Number.Whole

/-!
Integers among doubles, written as text. The search for the fewest digits reaches the grid of
integers before any finer one and finds the integer there, so an integer is written without decimal
places: up to `2 ^ 53` as itself, and beyond that as a number that reads back.
-/
namespace DeskCalculator.Number

theorem exists_first_of_findSome? {β : Type} {f : ℕ → Option β} {bound : ℕ} {b : β}
    (h : (List.range bound).findSome? f = some b) :
    ∃ i, i < bound ∧ f i = some b ∧ ∀ j, j < i → f j = none := by
  induction bound with
  | zero => exact nomatch h
  | succ bound ih =>
    rw [List.range_succ, List.findSome?_append] at h
    cases hfront : (List.range bound).findSome? f with
    | none =>
      have hlast : f bound = some b := by simpa [hfront] using h
      refine ⟨bound, Nat.lt_succ_self bound, hlast, ?_⟩
      intro j hj
      exact List.findSome?_eq_none_iff.mp hfront j (List.mem_range.mpr hj)
    | some c =>
      obtain rfl : c = b := by simpa [hfront] using h
      obtain ⟨i, hi, hfound, hearlier⟩ := ih hfront
      exact ⟨i, by omega, hfound, hearlier⟩

/-- On the grid of the units an integer reads back as itself. -/
theorem neighbour?_natCast {x : Float} {n den : ℕ} (hden : 0 < den) (hpos : 0 < n)
    (hx : IsRounded n x) : neighbour? x (n * den) den 0 = some n := by
  have hplace : onGrid (n * den) den 0 = ⟨n, 0, den⟩ := by
    have hunit : onGrid (n * den) den 0 = ⟨n * den / (den * 1), n * den % (den * 1), den * 1⟩ := rfl
    rw [hunit, Nat.mul_one, Nat.mul_div_cancel _ hden, Nat.mul_mod_left]
  have hback : readsBack x n 0 = true := by
    have hread := isRounded_toFloat n 0
    rw [zpow_zero, mul_one] at hread
    have hsame := hread.unique hx (by exact_mod_cast hpos.ne')
    exact beq_iff_eq.mpr (congrArg Float.toBits hsame)
  simp [neighbour?, hplace, hback, hden]

theorem fractionOf_natCast {m n : ℕ} {e : ℤ} (hvalue : (m : ℚ) * 2 ^ e = n) :
    0 < (fractionOf m e).2 ∧ (fractionOf m e).1 = n * (fractionOf m e).2 := by
  obtain ⟨hden, hfraction⟩ := fractionOf_value m e
  have hne : ((fractionOf m e).2 : ℚ) ≠ 0 := by exact_mod_cast hden.ne'
  rw [hvalue, div_eq_iff hne] at hfraction
  exact ⟨hden, by exact_mod_cast hfraction⟩

theorem decimalExponent_natCast {n den : ℕ} (hden : 0 < den) (hpos : 0 < n) :
    decimalExponent (n * den) den = (digits 10 n).length := by
  rw [decimalExponent, if_pos (Nat.le_mul_of_pos_left den hpos), Nat.mul_div_cancel _ hden]

/-- The shortest digits of an integer are its digits, or fewer of them with zeros behind. -/
theorem shortestDigits_natCast {x : Float} {m n : ℕ} {e : ℤ} (hm : m < 2 ^ 53) (hpos : 0 < n)
    (hvalue : (m : ℚ) * 2 ^ e = n) (hx : IsRounded n x) :
    ∃ digits zeros : ℕ,
      shortestDigits x m e = (digits, (zeros : ℤ)) ∧ (zeros = 0 → digits = n) := by
  obtain ⟨hden, hnum⟩ := fractionOf_natCast hvalue
  rw [shortestDigits]
  dsimp only
  generalize fractionOf m e = fraction at hden hnum ⊢
  obtain ⟨num, den⟩ := fraction
  obtain rfl : num = n * den := hnum
  have hneighbour := neighbour?_natCast hden hpos hx
  simp only [decimalExponent_natCast hden hpos]
  generalize hlength : (digits 10 n).length = length
  have hunits : ((neighbour? x (n * den) den ((length : ℤ) - (length : ℤ))).map
      fun digits => (digits, (length : ℤ) - (length : ℤ))) = some (n, 0) := by
    rw [sub_self, hneighbour]
    rfl
  generalize hfound : List.findSome? _ (List.range 18) = found
  cases found with
  | none =>
    cases e with
    | ofNat s =>
      refine ⟨m * 2 ^ s, 0, rfl, fun _ => ?_⟩
      rw [Int.ofNat_eq_natCast, zpow_natCast] at hvalue
      exact_mod_cast hvalue
    | negSucc k =>
      -- With binary places to spare the integer is so short that the search does reach its grid.
      have hmul : m = n * 2 ^ (k + 1) := by
        rw [zpow_negSucc, ← div_eq_mul_inv, div_eq_iff (by positivity)] at hvalue
        exact_mod_cast hvalue
      have hle : n ≤ m := by
        rw [hmul]
        exact Nat.le_mul_of_pos_right n (Nat.two_pow_pos _)
      have hshort : length ≤ 17 := by
        rw [← hlength]
        exact length_digits_le (by omega)
      have hnone := List.findSome?_eq_none_iff.mp hfound length (List.mem_range.mpr (by omega))
      exact absurd (hunits.symm.trans hnone) (Option.some_ne_none _)
  | some place =>
    obtain ⟨i, hi, hplace, hearlier⟩ := exists_first_of_findSome? hfound
    have hreached : i ≤ length := by
      by_contra hlt
      exact absurd (hunits.symm.trans (hearlier length (by omega))) (Option.some_ne_none _)
    obtain ⟨digits, hdigits, rfl⟩ := Option.map_eq_some_iff.mp hplace
    refine ⟨digits, length - i, ?_, ?_⟩
    · rw [Nat.cast_sub hreached]
      rfl
    · intro hzero
      obtain rfl : i = length := by omega
      rw [sub_self, hneighbour] at hdigits
      exact (Option.some.inj hdigits).symm

theorem IsWhole.ofNat_of_le {n : ℕ} (hn : n ≤ 2 ^ 53) : IsWhole (Number.ofNat n) n := by
  rcases hn.lt_or_eq with hlt | rfl
  · exact .ofNat hlt
  · have hunits : (Reading.finite false 1 53).value = ((2 ^ 53 : ℕ) : ℚ) := by
      norm_num [Reading.value]
    have hrounded := isRounded_ofNat (2 ^ 53)
    rw [← hunits] at hrounded
    obtain ⟨hfinite, hkept⟩ := hrounded.of_units (by norm_num) (by norm_num) (by norm_num)
    exact ⟨hfinite, hkept.trans hunits⟩

/-- Up to `2 ^ 53` only the odd number next to the bound is rounded to another integer. -/
theorem eq_of_isRounded {x : Float} {k n : ℕ} (hk : IsRounded k x) (hx : IsWhole x n)
    (hn : n ≤ 2 ^ 53) (hodd : k ≠ 2 ^ 53 + 1) : k = n := by
  have hvalue := hx.exact_eq
  by_cases hbelow : k ≤ 2 ^ 53
  · have hwhole := IsWhole.ofNat_of_le hbelow
    have hkept := (hk.exact_of_double hwhole.isFinite hwhole.exact_eq).2
    exact_mod_cast hkept.symm.trans hvalue
  · have hunits : (Reading.finite false (2 ^ 52 + 1) 1).value = ((2 ^ 53 + 2 : ℕ) : ℚ) := by
      norm_num [Reading.value]
    have hnext := isRounded_nearest false (2 ^ 52 + 1) 1
    obtain ⟨hfinite, hkept⟩ := hnext.of_units (by norm_num) (by norm_num) (by norm_num)
    have habove : ((2 ^ 53 + 2 : ℕ) : ℚ) ≤ k := by exact_mod_cast (by omega : 2 ^ 53 + 2 ≤ k)
    have hle := hnext.mono hfinite hk hx.isFinite (hunits.trans_le habove)
    rw [hkept, hunits, hvalue] at hle
    have hcontra : 2 ^ 53 + 2 ≤ n := by exact_mod_cast hle
    omega

structure WritesInteger (n written : ℕ) : Prop where
  whole : IsWhole (ofNat n) n
  text : shortestText (ofNat n) = decimalText written
  rounded : IsRounded written (ofNat n)
  kept : n ≤ 2 ^ 53 → written = n

theorem exists_writesInteger {n : ℕ} (hn : IsWhole (ofNat n) n) :
    ∃ written, WritesInteger n written := by
  rcases Nat.eq_zero_or_pos n with rfl | hpos
  · exact ⟨0, hn, by decide +kernel, isRounded_ofNat 0, fun _ => rfl⟩
  · have hexact : 0 < exact (ofNat n) := by
      rw [hn.exact_eq]
      exact_mod_cast hpos
    obtain ⟨m, e, hreading, hm, hvalue⟩ := exists_reading_of_pos hn.isFinite hexact
    rw [hn.exact_eq] at hvalue
    have hnearest : nearest false m e = ofNat n := by
      refine nearest_congr false (hvalue.symm.trans ?_)
      rw [zpow_zero, mul_one]
    obtain ⟨digits, zeros, hdigits, hunits⟩ :=
      shortestDigits_natCast hm hpos hvalue.symm (isRounded_ofNat n)
    have hsome : m ≠ 0 := by
      rintro rfl
      rw [Nat.cast_zero, zero_mul] at hvalue
      exact hpos.ne' (by exact_mod_cast hvalue)
    obtain ⟨m, rfl⟩ := Nat.exists_eq_succ_of_ne_zero hsome
    have htext : shortestText (ofNat n) = decimalText (digits * 10 ^ zeros) := by
      rw [shortestText, hreading]
      simp only [hnearest, hdigits]
      rfl
    have hrounded : IsRounded (digits * 10 ^ zeros : ℕ) (ofNat n) := by
      have hback := toFloat_shortestDigits (Nat.succ_pos m) (hvalue ▸ isRounded_ofNat n)
      have hread := isRounded_toFloat digits zeros
      rw [hdigits] at hback
      rw [hback, zpow_natCast] at hread
      exact_mod_cast hread
    refine ⟨digits * 10 ^ zeros, hn, htext, hrounded, ?_⟩
    intro hbound
    refine eq_of_isRounded hrounded hn hbound ?_
    -- With zeros at the end it is no odd number, and without them it is `n` itself.
    cases zeros with
    | zero =>
      rw [pow_zero, mul_one, hunits rfl]
      omega
    | succ zeros =>
      rw [pow_succ, ← mul_assoc]
      omega

namespace WritesInteger

variable {n n' written written' : ℕ}

theorem unique (h : WritesInteger n written) (h' : WritesInteger n written') :
    written = written' := by
  have htext := h.text.symm.trans h'.text
  rw [← decimalValue_decimalText written, htext, decimalValue_decimalText]

/-- Greater integers are written as greater numbers, or as equal ones. -/
theorem mono (h : WritesInteger n written) (h' : WritesInteger n' written') (hle : n ≤ n') :
    written ≤ written' := by
  by_contra hlt
  have hback := h'.rounded.mono h'.whole.isFinite h.rounded h.whole.isFinite
    (by exact_mod_cast (Nat.lt_of_not_le hlt).le)
  rw [h.whole.exact_eq, h'.whole.exact_eq] at hback
  obtain rfl : n = n' := le_antisymm hle (by exact_mod_cast hback)
  exact hlt (h.unique h').le

theorem of_le (hn : n ≤ 2 ^ 53) : WritesInteger n n := by
  obtain ⟨written, h⟩ := exists_writesInteger (IsWhole.ofNat_of_le hn)
  rwa [h.kept hn] at h

/-- Numbers up to `2 ^ 53` keep their order to what is written, whatever is written. -/
theorem natCast_le (h : WritesInteger n written) {k : ℕ} (hk : k ≤ 2 ^ 53) (hle : k ≤ n) :
    k ≤ written :=
  (of_le hk).mono h hle

theorem eq_zero_iff (h : WritesInteger n written) : written = 0 ↔ n = 0 := by
  constructor
  · rintro rfl
    by_contra hne
    have hone := h.natCast_le (by norm_num) (Nat.one_le_iff_ne_zero.mpr hne)
    omega
  · rintro rfl
    exact h.kept (by norm_num)

/-- What is written reads back as the integer. -/
theorem reads (h : WritesInteger n written) {y : Float} (hy : IsRounded written y) :
    IsWhole y n := by
  by_cases hzero : written = 0
  · obtain rfl := h.eq_zero_iff.mp hzero
    rw [hzero] at hy
    exact hy.isWhole (by norm_num)
  · rw [hy.unique h.rounded (by exact_mod_cast hzero)]
    exact h.whole

end WritesInteger

/-- Adding zero takes the sign off a zero and leaves any other integer as it is. -/
theorem shortestText_add_zero {y : Float} (hy : y.isFinite = true) {n written : ℕ}
    (hvalue : |exact y| = n) (hwritten : WritesInteger n written) :
    shortestText (y + 0.0) = signedText (decide (exact y < 0)) (wholeNumeral written).text := by
  rw [text_wholeNumeral, ← hwritten.text]
  by_cases hzero : exact y = 0
  · obtain rfl : n = 0 := by
      rw [hzero, abs_zero] at hvalue
      exact_mod_cast hvalue.symm
    rw [add_zero_of_exact_eq_zero hy hzero, hzero, decide_eq_false (lt_irrefl 0)]
    rfl
  · have hpositive : (0.0 : Float) = ofNat 0 := by decide +kernel
    have hsame : y.abs = ofNat n := by
      apply eq_of_exact_eq ((isFinite_abs y).trans hy) hwritten.whole.isFinite
      · rw [exact_abs, hvalue, hwritten.whole.exact_eq]
      · rw [exact_abs]
        exact abs_ne_zero.mpr hzero
    rw [hpositive, add_zero_eq hy hzero, shortestText_eq_signedText hy hzero, hsame]

end DeskCalculator.Number
