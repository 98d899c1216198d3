import Mathlib.Algebra.Order.Field.Power
import Mathlib.Algebra.Order.Ring.Abs
import Mathlib.Data.Rat.Cast.Order
import Mathlib.Tactic.FieldSimp
import Mathlib.Tactic.Linarith
import Mathlib.Tactic.Positivity
import Mathlib.Tactic.Ring

/-!
Rational numbers rounded to a double, without the doubles. A number in `[2 ^ 52 · 2 ^ t,
2 ^ 53 · 2 ^ t)` is counted in units of `2 ^ t`, as is everything below when `t` is the least
exponent there is; the nearest number of units, ties to even, is what a double keeps of it.
-/
namespace DeskCalculator.Number

structure IsNearest (k : ℕ) (x : ℚ) : Prop where
  near : |x - k| ≤ 1 / 2
  even : |x - k| = 1 / 2 → k % 2 = 0

namespace IsNearest

theorem natCast (n : ℕ) : IsNearest n n :=
  ⟨by simp, fun h => absurd h (by simp)⟩

variable {k : ℕ} {x : ℚ}

private theorem not_lt {k' : ℕ} (h : IsNearest k x) (h' : IsNearest k' x) : ¬ k < k' := by
  intro hlt
  have hsucc : (k : ℚ) + 1 ≤ k' := by exact_mod_cast hlt
  have hupper := (abs_le.mp h.near).2
  have hlower := (abs_le.mp h'.near).1
  have hk : x - k = 1 / 2 := by linarith
  have hk' : x - k' = -(1 / 2) := by linarith
  have hnext : k' = k + 1 := by
    have : (k' : ℚ) = (k + 1 : ℕ) := by push_cast; linarith
    exact_mod_cast this
  have heven := h.even (by rw [hk]; norm_num)
  have heven' := h'.even (by rw [hk']; norm_num)
  omega

theorem unique {k' : ℕ} (h : IsNearest k x) (h' : IsNearest k' x) : k = k' :=
  le_antisymm (Nat.le_of_not_lt (h'.not_lt h)) (Nat.le_of_not_lt (h.not_lt h'))

theorem mono {k' : ℕ} {x' : ℚ} (h : IsNearest k x) (h' : IsNearest k' x') (hx : x ≤ x') :
    k ≤ k' := by
  by_contra hlt
  have hsucc : (k' : ℚ) + 1 ≤ k := by exact_mod_cast Nat.lt_of_not_le hlt
  have hlower := (abs_le.mp h.near).1
  have hupper := (abs_le.mp h'.near).2
  -- Only two equal numbers lie half way between `k'` and `k`.
  obtain rfl : x = x' := by linarith
  exact hlt (h.unique h').le

theorem le_natCast (h : IsNearest k x) {n : ℕ} (hx : x ≤ n) : k ≤ n := by
  by_contra hlt
  have hsucc : (n : ℚ) + 1 ≤ k := by exact_mod_cast Nat.lt_of_not_le hlt
  have hlower := (abs_le.mp h.near).1
  linarith

theorem natCast_le (h : IsNearest k x) {n : ℕ} (hx : (n : ℚ) ≤ x) : n ≤ k := by
  by_contra hlt
  have hsucc : (k : ℚ) + 1 ≤ n := by exact_mod_cast Nat.lt_of_not_le hlt
  have hupper := (abs_le.mp h.near).2
  linarith

/-- No natural number is nearer than the nearest one. -/
theorem abs_sub_le (h : IsNearest k x) (n : ℕ) : |k - x| ≤ |n - x| := by
  rcases lt_trichotomy k n with hlt | rfl | hgt
  · have hsucc : (k : ℚ) + 1 ≤ n := by exact_mod_cast hlt
    have hnear := abs_le.mp h.near
    rw [abs_sub_comm, abs_of_nonneg (by linarith : (0 : ℚ) ≤ n - x)]
    exact h.near.trans (by linarith)
  · exact le_rfl
  · have hsucc : (n : ℚ) + 1 ≤ k := by exact_mod_cast hgt
    have hnear := abs_le.mp h.near
    rw [abs_sub_comm, abs_of_nonpos (by linarith : (n : ℚ) - x ≤ 0)]
    exact h.near.trans (by linarith)

/-- Counted in parts of one, the number is at most half a part away. -/
theorem abs_div_sub_le {unit : ℕ} (h : IsNearest k (x * unit)) (hunit : 0 < unit) :
    |k / unit - x| ≤ 1 / 2 / unit := by
  have hpos : (0 : ℚ) < unit := by exact_mod_cast hunit
  rw [le_div_iff₀ hpos, ← abs_of_pos hpos, ← abs_mul, abs_of_pos hpos, sub_mul,
    div_mul_cancel₀ _ hpos.ne', abs_sub_comm]
  exact h.near

end IsNearest

theorem two_zpow_pos (t : ℤ) : (0 : ℚ) < 2 ^ t := by positivity

theorem two_zpow_add_one (t : ℤ) : (2 : ℚ) ^ (t + 1) = 2 * 2 ^ t := by
  rw [zpow_add_one₀ two_ne_zero, mul_comm]

theorem two_zpow_le {s t : ℤ} (h : s ≤ t) : (2 : ℚ) ^ s ≤ 2 ^ t :=
  zpow_le_zpow_right₀ one_le_two h

/-- The units in which `q` is counted have the size `2 ^ t`. -/
structure IsUlp (q : ℚ) (t : ℤ) : Prop where
  least : -1074 ≤ t
  full : t = -1074 ∨ 2 ^ 52 * 2 ^ t ≤ q
  fits : q < 2 ^ 53 * 2 ^ t

namespace IsUlp

variable {q : ℚ} {t : ℤ}

private theorem not_lt {t' : ℤ} (h : IsUlp q t) (h' : IsUlp q t') : ¬ t < t' := by
  intro hlt
  have hleast := h.least
  have hfull := h'.full.resolve_left (by omega)
  have hstep := two_zpow_le (by omega : t + 1 ≤ t')
  have hfits := h.fits
  rw [two_zpow_add_one] at hstep
  linarith

theorem unique {t' : ℤ} (h : IsUlp q t) (h' : IsUlp q t') : t = t' :=
  le_antisymm (Int.le_of_not_gt (h'.not_lt h)) (Int.le_of_not_gt (h.not_lt h'))

end IsUlp

/-- The mantissa `m` and the exponent `e` that a double keeps: either all 53 digits are there, or
the exponent is the least one. -/
structure IsCanonical (m : ℕ) (e : ℤ) : Prop where
  mantissa_lt : m < 2 ^ 53
  least : -1074 ≤ e
  full : e = -1074 ∨ 2 ^ 52 ≤ m

structure RoundsTo (q : ℚ) (k : ℕ) (t : ℤ) : Prop extends IsUlp q t where
  nearest : IsNearest k (q / 2 ^ t)

theorem IsCanonical.roundsTo {m : ℕ} {e : ℤ} (h : IsCanonical m e) :
    RoundsTo (m * 2 ^ e) m e where
  least := h.least
  full := h.full.imp_right fun hfull =>
    mul_le_mul_of_nonneg_right (by exact_mod_cast hfull) (two_zpow_pos e).le
  fits := mul_lt_mul_of_pos_right (by exact_mod_cast h.mantissa_lt) (two_zpow_pos e)
  nearest := by
    rw [mul_div_cancel_right₀ _ (two_zpow_pos e).ne']
    exact IsNearest.natCast m

theorem roundsTo_zero : RoundsTo 0 0 (-1074) := by
  have hzero : IsCanonical 0 (-1074) := ⟨by norm_num, le_rfl, Or.inl rfl⟩
  simpa using hzero.roundsTo

namespace RoundsTo

variable {q : ℚ} {k : ℕ} {t : ℤ}

theorem unique {k' : ℕ} {t' : ℤ} (h : RoundsTo q k t) (h' : RoundsTo q k' t') :
    k = k' ∧ t = t' := by
  obtain rfl := h.toIsUlp.unique h'.toIsUlp
  exact ⟨h.nearest.unique h'.nearest, rfl⟩

theorem le_two_pow (h : RoundsTo q k t) : k ≤ 2 ^ 53 := by
  apply h.nearest.le_natCast
  rw [div_le_iff₀ (two_zpow_pos t)]
  exact_mod_cast h.fits.le

theorem two_pow_le (h : RoundsTo q k t) : t = -1074 ∨ 2 ^ 52 ≤ k := by
  refine h.full.imp_right fun hfull => h.nearest.natCast_le ?_
  rw [le_div_iff₀ (two_zpow_pos t)]
  exact_mod_cast hfull

/-- No number of units is nearer. -/
theorem abs_units_sub_le (h : RoundsTo q k t) (n : ℕ) :
    |k * 2 ^ t - q| ≤ |n * 2 ^ t - q| := by
  have hpos := two_zpow_pos t
  have hscale : ∀ i : ℕ, |i * 2 ^ t - q| = |i - q / 2 ^ t| * 2 ^ t := by
    intro i
    rw [← abs_of_pos hpos, ← abs_mul, abs_of_pos hpos, sub_mul, div_mul_cancel₀ _ hpos.ne']
  rw [hscale, hscale]
  exact mul_le_mul_of_nonneg_right (h.nearest.abs_sub_le n) hpos.le

/-- Nothing that a double can keep is nearer: what is counted in larger units is also counted in
these, and what needs smaller units lies below `2 ^ 52` of these. -/
theorem abs_sub_le (h : RoundsTo q k t) {m : ℕ} {e : ℤ} (hc : IsCanonical m e) :
    |k * 2 ^ t - q| ≤ |m * 2 ^ e - q| := by
  rcases le_or_gt t e with hle | hlt
  · obtain ⟨j, hj⟩ := Int.eq_ofNat_of_zero_le (by omega : 0 ≤ e - t)
    have hunits : (m : ℚ) * 2 ^ e = (m * 2 ^ j : ℕ) * 2 ^ t := by
      rw [show e = (j : ℤ) + t by omega, zpow_add₀ two_ne_zero, zpow_natCast]
      push_cast
      ring
    rw [hunits]
    exact h.abs_units_sub_le _
  · have hleast := hc.least
    have hfull := h.full.resolve_left (by omega)
    have hbelow : (m : ℚ) * 2 ^ e ≤ 2 ^ 52 * 2 ^ t := by
      have hstep := two_zpow_le (by omega : e + 1 ≤ t)
      have hm : (m : ℚ) ≤ 2 ^ 53 := by exact_mod_cast hc.mantissa_lt.le
      have hmul := mul_le_mul_of_nonneg_right hm (two_zpow_pos e).le
      rw [two_zpow_add_one] at hstep
      linarith
    have hunits := h.abs_units_sub_le (2 ^ 52)
    rw [Nat.cast_pow, Nat.cast_ofNat,
      abs_of_nonpos (by linarith : (2 : ℚ) ^ 52 * 2 ^ t - q ≤ 0)] at hunits
    rw [abs_of_nonpos (by linarith : (m : ℚ) * 2 ^ e - q ≤ 0)]
    linarith

/-- What a mantissa and an exponent can hold is kept as it is. -/
theorem eq_units {m : ℕ} {e : ℤ} (h : RoundsTo (m * 2 ^ e) k t) (hm : m < 2 ^ 53)
    (hleast : -1074 ≤ e) : (k : ℚ) * 2 ^ t = m * 2 ^ e := by
  have ht : t ≤ e := by
    by_contra hlt
    have hfull := h.full.resolve_left (by omega)
    have hstep := two_zpow_le (by omega : e + 1 ≤ t)
    have hbound : (m : ℚ) < 2 ^ 53 := by exact_mod_cast hm
    have hmul := mul_lt_mul_of_pos_right hbound (two_zpow_pos e)
    rw [two_zpow_add_one] at hstep
    linarith
  obtain ⟨j, hj⟩ := Int.eq_ofNat_of_zero_le (by omega : 0 ≤ e - t)
  have hunits : ((m * 2 ^ j : ℕ) : ℚ) * 2 ^ t = m * 2 ^ e := by
    rw [show e = (j : ℤ) + t by omega, zpow_add₀ two_ne_zero, zpow_natCast]
    push_cast
    ring
  have hnear := h.abs_units_sub_le (m * 2 ^ j)
  rw [hunits, sub_self, abs_zero] at hnear
  exact sub_eq_zero.mp (abs_nonpos_iff.mp hnear)

/-- What is not above the greatest mantissa with the exponent `top` does not leave the range that
ends there. -/
theorem exponent_le (h : RoundsTo q k t) {top : ℤ} (htop : -1074 ≤ top)
    (hq : q ≤ (2 ^ 53 - 1) * 2 ^ top) : t ≤ top ∧ (k = 2 ^ 53 → t < top) := by
  have hle : t ≤ top := by
    rcases h.full with heq | hfull
    · omega
    · by_contra hgt
      have hstep := two_zpow_le (by omega : top + 1 ≤ t)
      have hpos := two_zpow_pos top
      rw [two_zpow_add_one] at hstep
      linarith
  refine ⟨hle, fun hk => lt_of_le_of_ne hle ?_⟩
  rintro rfl
  have hbound : k ≤ 2 ^ 53 - 1 := by
    apply h.nearest.le_natCast
    rw [div_le_iff₀ (two_zpow_pos t), Nat.cast_sub (by norm_num)]
    exact_mod_cast hq
  omega

end RoundsTo

end DeskCalculator.Number
