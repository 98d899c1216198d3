import DeskCalculator.Proofs.Number.Doubles

/-!
Doubles rounded to integers. Natural numbers below `2 ^ 53` are doubles; rounding a finite double
to an integer gives a finite double with the same sign, and leaves an integer as it is.
-/
namespace DeskCalculator.Number

open Float.Model Float.Model.UnpackedFloat

theorem abs_value (negative : Bool) (m : ℕ) (e : ℤ) :
    |(Reading.finite negative m e).value| = m * 2 ^ e := by
  have hnonneg : (0 : ℚ) ≤ m * 2 ^ e := by positivity
  cases negative
  · exact abs_of_nonneg hnonneg
  · exact (abs_neg _).trans (abs_of_nonneg hnonneg)

theorem abs_exact_of_reading {x : Float} {negative : Bool} {m : ℕ} {e : ℤ}
    (h : reading x = .finite negative m e) : |exact x| = m * 2 ^ e := by
  rw [exact_of_reading h, abs_value]

theorem decide_neg_of_reading {x : Float} {negative : Bool} {m : ℕ} {e : ℤ}
    (h : reading x = .finite negative m e) (hne : exact x ≠ 0) :
    decide (exact x < 0) = negative := by
  have hnonneg : (0 : ℚ) ≤ m * 2 ^ e := by positivity
  rw [exact_of_reading h, Reading.value] at hne ⊢
  cases negative with
  | false => exact decide_eq_false hnonneg.not_gt
  | true => exact decide_eq_true ((neg_nonpos_of_nonneg hnonneg).lt_of_ne hne)

/-- A reading with no fraction in units of one. -/
theorem value_natCast (negative : Bool) {m j : ℕ} {e : ℤ} (h : (m : ℚ) * 2 ^ e = j) :
    (Reading.finite negative m e).value = (Reading.finite negative j 0).value := by
  simp only [Reading.value, h, zpow_zero, mul_one]

theorem isRounded_nearest (negative : Bool) (m : ℕ) (e : ℤ) :
    IsRounded (Reading.finite negative m e).value (nearest negative m e) := by
  refine ⟨_, ?_, rfl⟩
  have hrounds := rounds_round (if negative then .negative else .positive) m e
  cases negative <;> exact hrounds

/-- Only the number that a mantissa and an exponent stand for counts. -/
theorem nearest_congr (negative : Bool) {m m' : ℕ} {e e' : ℤ}
    (h : (m : ℚ) * 2 ^ e = m' * 2 ^ e') : nearest negative m e = nearest negative m' e' := by
  obtain ⟨k, t, hrounds, hround⟩ := round_eq (if negative then .negative else .positive) m e
  obtain ⟨k', t', hrounds', hround'⟩ := round_eq (if negative then .negative else .positive) m' e'
  rw [← h] at hrounds'
  obtain ⟨rfl, rfl⟩ := hrounds.unique hrounds'
  rw [nearest, nearest, hround, hround']

theorem isRounded_ofNat (n : ℕ) : IsRounded n (ofNat n) := by
  have hrounded := isRounded_nearest false n 0
  rwa [Reading.value, zpow_zero, mul_one] at hrounded

/-- What a mantissa and an exponent of doubles can hold is kept as it is. -/
theorem IsRounded.of_units {negative : Bool} {m : ℕ} {e : ℤ} {x : Float}
    (h : IsRounded (Reading.finite negative m e).value x) (hm : m < 2 ^ 53) (hleast : -1074 ≤ e)
    (htop : e ≤ 971) : x.isFinite = true ∧ exact x = (Reading.finite negative m e).value := by
  have habs := abs_value negative m e
  have hx : x.isFinite = true := by
    apply h.isFinite
    have hbound : (m : ℚ) ≤ 2 ^ 53 - 1 := by
      have : (m : ℚ) + 1 ≤ 2 ^ 53 := by exact_mod_cast hm
      linarith
    rw [habs, greatest]
    exact mul_le_mul hbound (two_zpow_le htop) (two_zpow_pos e).le (by norm_num)
  obtain ⟨sign, k, t, hsign, hrounds, hvalue⟩ := h.exact_eq hx
  rw [habs] at hsign hrounds
  rw [hvalue, hrounds.eq_units hm hleast]
  exact ⟨hx, hsign.symm⟩

theorem IsRounded.of_natCast {negative : Bool} {n : ℕ} {x : Float}
    (h : IsRounded (Reading.finite negative n 0).value x) (hn : n < 2 ^ 53) :
    x.isFinite = true ∧ exact x = (Reading.finite negative n 0).value :=
  h.of_units hn (by norm_num) (by norm_num)

theorem one_le_exact_ofNat {n : ℕ} (hn : 1 ≤ n) (h : (ofNat n).isFinite = true) :
    1 ≤ exact (ofNat n) := by
  obtain ⟨hone, hexact⟩ := (isRounded_nearest false 1 0).of_natCast (by norm_num)
  have hle := (isRounded_ofNat 1).mono hone (isRounded_ofNat n) h (by exact_mod_cast hn)
  have hvalue : exact (ofNat 1) = 1 := hexact.trans (by simp [Reading.value])
  rwa [hvalue] at hle

theorem exists_reading {x : Float} (hx : x.isFinite = true) :
    ∃ negative m e, reading x = .finite negative m e ∧ m < 2 ^ 53 := by
  have hfinite := (isFinite_iff x).mp hx
  rw [reading]
  generalize x.toModel.unpack = u at hfinite ⊢
  cases hfinite with
  | zero sign => exact ⟨_, 0, 0, rfl, by norm_num⟩
  | finite sign hm hc he => exact ⟨_, _, _, rfl, hc.mantissa_lt⟩

theorem exponent_of_reading {x : Float} {negative : Bool} {m : ℕ} {e : ℤ}
    (h : reading x = .finite negative m e) : -1074 ≤ e ∧ e ≤ 971 := by
  have hfits := fits_unpack x.toModel
  rw [reading] at h
  generalize x.toModel.unpack = u at h hfits
  rcases u with _ | _ | _ | ⟨sign, m', e', hm⟩
  · cases h
  · cases h
  · obtain ⟨-, rfl, rfl⟩ := Reading.finite.inj h
    norm_num
  · obtain ⟨-, rfl, rfl⟩ := Reading.finite.inj h
    obtain ⟨hc, htop⟩ : IsCanonical m' e' ∧ e' ≤ 971 := hfits
    exact ⟨hc.least, htop⟩

section Integral

variable (up : (negative : Bool) → (rest unit : ℕ) → Bool) {x : Float}

/-- Rounding to an integer keeps the sign, and the magnitude where it is an integer already. -/
theorem exact_integral_of_reading {negative : Bool} {m : ℕ} {e : ℤ}
    (hreading : reading x = .finite negative m e) (hm : m < 2 ^ 53) (hx : x.isFinite = true) :
    (integral up x).isFinite = true ∧ ∃ n : ℕ,
      exact (integral up x) = (Reading.finite negative n 0).value ∧
      ∀ j : ℕ, (∀ unit, 0 < unit → up negative 0 unit = false) → (m : ℚ) * 2 ^ e = j → n = j := by
  rw [integral, hreading]
  cases e with
  | ofNat s =>
    have hwhole : (m : ℚ) * 2 ^ (Int.ofNat s) = (m * 2 ^ s : ℕ) := by
      rw [Int.ofNat_eq_natCast, zpow_natCast]
      push_cast
      rfl
    refine ⟨hx, m * 2 ^ s, ?_, ?_⟩
    · exact (exact_of_reading hreading).trans (value_natCast negative hwhole)
    · intro j _ hj
      exact_mod_cast hwhole.symm.trans hj
  | negSucc k =>
    dsimp only
    -- At most one is added to at most half of `m`, and so no digit is lost.
    have hunit : 2 ≤ Nat.pow 2 (k + 1) := Nat.le_self_pow (by omega) 2
    have hhalf : m / Nat.pow 2 (k + 1) ≤ m / 2 := Nat.div_le_div_left hunit two_pos
    generalize hn : (if up negative (m % Nat.pow 2 (k + 1)) (Nat.pow 2 (k + 1)) then
      m / Nat.pow 2 (k + 1) + 1 else m / Nat.pow 2 (k + 1)) = n
    have hlt : n < 2 ^ 53 := by
      rw [← hn]
      split_ifs <;> omega
    obtain ⟨hfinite, hvalue⟩ := (isRounded_nearest negative n 0).of_natCast hlt
    refine ⟨hfinite, n, hvalue, ?_⟩
    intro j hup hj
    have hmul : m = j * Nat.pow 2 (k + 1) := by
      rw [zpow_negSucc, ← div_eq_mul_inv, div_eq_iff (by positivity)] at hj
      exact_mod_cast hj
    rw [← hn, hmul, Nat.mul_mod_left, hup _ (by omega), if_neg Bool.false_ne_true,
      Nat.mul_div_cancel _ (by omega)]

theorem isFinite_integral (x : Float) : (integral up x).isFinite = x.isFinite := by
  rcases hx : x.isFinite with _ | _
  · have hmodel : x.toModel.unpack.isFinite = false := hx
    rw [integral, reading]
    generalize x.toModel.unpack = u at hmodel ⊢
    rcases u with _ | _ | _ | _
    · exact hx
    · exact hx
    · exact absurd hmodel.symm Bool.false_ne_true
    · exact absurd hmodel.symm Bool.false_ne_true
  · obtain ⟨negative, m, e, hreading, hm⟩ := exists_reading hx
    exact (exact_integral_of_reading up hreading hm hx).1

variable {up} (hup : ∀ negative unit, 0 < unit → up negative 0 unit = false)
include hup

theorem exact_integral_of_integer (hx : x.isFinite = true) {z : ℤ} (hz : exact x = z) :
    exact (integral up x) = exact x := by
  obtain ⟨negative, m, e, hreading, hm⟩ := exists_reading hx
  obtain ⟨-, n, hvalue, hkeep⟩ := exact_integral_of_reading up hreading hm hx
  have hnat : (m : ℚ) * 2 ^ e = z.natAbs := by
    rw [← abs_exact_of_reading hreading, hz, Nat.cast_natAbs, Int.cast_abs]
  rw [hvalue, exact_of_reading hreading, hkeep _ (hup negative) hnat, value_natCast negative hnat]

theorem exact_integral_nonneg (hx : x.isFinite = true) (hnonneg : 0 ≤ exact x) :
    0 ≤ exact (integral up x) := by
  obtain ⟨negative, m, e, hreading, hm⟩ := exists_reading hx
  cases negative with
  | false =>
    obtain ⟨-, n, hvalue, -⟩ := exact_integral_of_reading up hreading hm hx
    have hn : (0 : ℚ) ≤ n * 2 ^ (0 : ℤ) := by positivity
    rw [hvalue]
    exact hn
  | true =>
    have hnonpos : exact x ≤ 0 := by
      rw [exact_of_reading hreading]
      exact neg_nonpos_of_nonneg (by positivity)
    have hzero : exact x = (0 : ℤ) := by
      rw [Int.cast_zero]
      exact le_antisymm hnonpos hnonneg
    rw [exact_integral_of_integer hup hx hzero]
    exact hnonneg

end Integral

/-- A number counted in a smaller unit. -/
theorem mul_two_pow_toNat (m : ℕ) {e unit : ℤ} (h : unit ≤ e) :
    ((m * Nat.pow 2 (e - unit).toNat : ℕ) : ℚ) * 2 ^ unit = m * 2 ^ e := by
  obtain ⟨s, hs⟩ := Int.eq_ofNat_of_zero_le (Int.sub_nonneg_of_le h)
  have hsplit : e = s + unit := by omega
  rw [hs, Int.toNat_natCast, Nat.pow_eq, Nat.cast_mul, Nat.cast_pow, Nat.cast_ofNat]
  conv_rhs => rw [hsplit, zpow_add₀ two_ne_zero, zpow_natCast, ← mul_assoc]

/-- A remainder by a divisor other than zero is finite. -/
theorem isFinite_remainder {x y : Float} (hx : x.isFinite = true) (hy : y.isFinite = true)
    (hne : exact y ≠ 0) : (remainder x y).isFinite = true := by
  obtain ⟨negative, m, e, hreading, -⟩ := exists_reading hx
  obtain ⟨negative', n, f, hreading', -⟩ := exists_reading hy
  have hdivisor : n ≠ 0 := by
    rintro rfl
    rw [exact_of_reading hreading'] at hne
    cases negative' <;> simp [Reading.value] at hne
  have hbound := abs_exact_le_greatest hy
  rw [abs_exact_of_reading hreading'] at hbound
  rw [remainder, hreading, hreading']
  dsimp only
  rw [if_neg hdivisor]
  apply (isRounded_nearest _ _ _).isFinite
  rw [abs_value]
  have hrest : m * Nat.pow 2 (e - min e f).toNat % (n * Nat.pow 2 (f - min e f).toNat)
      ≤ n * Nat.pow 2 (f - min e f).toNat :=
    (Nat.mod_lt _ (Nat.mul_pos (Nat.pos_of_ne_zero hdivisor) (Nat.two_pow_pos _))).le
  refine le_trans ?_ hbound
  rw [← mul_two_pow_toNat n (min_le_right e f)]
  exact mul_le_mul_of_nonneg_right (by exact_mod_cast hrest) (two_zpow_pos _).le

end DeskCalculator.Number
