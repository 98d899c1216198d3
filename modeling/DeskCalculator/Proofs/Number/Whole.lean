import DeskCalculator.Proofs.Number.Integral
import Mathlib.Algebra.Order.Floor.Semiring
import Mathlib.Data.Rat.Floor

/-!
Whole numbers among doubles. Below `2 ^ 53` each natural number is a double, so sums, differences,
products and remainders that are such numbers are exact; the next integer below or above a double is
one too. A quotient is rounded, but the error is small against the quotient itself.
-/
namespace DeskCalculator.Number

structure IsWhole (x : Float) (n : ℕ) : Prop where
  isFinite : x.isFinite = true
  exact_eq : exact x = n

def leastNormal : ℚ := 2 ^ (-1022 : ℤ)

theorem RoundsTo.two_pow_le_of_normal {q : ℚ} {k : ℕ} {t : ℤ} (h : RoundsTo q k t)
    (hq : leastNormal ≤ q) : 2 ^ 52 ≤ k := by
  apply h.nearest.natCast_le
  rw [le_div_iff₀ (two_zpow_pos t)]
  rcases h.full with rfl | hfull
  · have hleast : ((2 ^ 52 : ℕ) : ℚ) * 2 ^ (-1074 : ℤ) = leastNormal := by
      rw [leastNormal, Nat.cast_pow, Nat.cast_ofNat, ← zpow_natCast, ← zpow_add₀ two_ne_zero]
      rfl
    rwa [hleast]
  · exact_mod_cast hfull

/-- At most half a unit is lost, and there are at least `2 ^ 52` units. -/
theorem RoundsTo.abs_sub_le_of_normal {q : ℚ} {k : ℕ} {t : ℤ} (h : RoundsTo q k t)
    (hq : leastNormal ≤ q) : |k * 2 ^ t - q| ≤ k * 2 ^ t / 2 ^ 53 := by
  have hpos := two_zpow_pos t
  have hk : (2 : ℚ) ^ 52 ≤ k := by exact_mod_cast h.two_pow_le_of_normal hq
  have hscale : k * 2 ^ t - q = -((q / 2 ^ t - k) * 2 ^ t) := by
    rw [sub_mul, div_mul_cancel₀ _ hpos.ne']
    ring
  calc |k * 2 ^ t - q| = |q / 2 ^ t - k| * 2 ^ t := by
        rw [hscale, abs_neg, abs_mul, abs_of_pos hpos]
    _ ≤ 1 / 2 * 2 ^ t := mul_le_mul_of_nonneg_right h.nearest.near hpos.le
    _ ≤ k / 2 ^ 53 * 2 ^ t := by
        refine mul_le_mul_of_nonneg_right ?_ hpos.le
        rw [le_div_iff₀ (by positivity)]
        linarith
    _ = k * 2 ^ t / 2 ^ 53 := by ring

namespace IsRounded

variable {q : ℚ} {x : Float}

/-- In the normal range the relative error is at most `2 ^ -53`. -/
theorem abs_sub_le_of_normal (h : IsRounded q x) (hx : x.isFinite = true)
    (hq : leastNormal ≤ q) : |exact x - q| ≤ exact x / 2 ^ 53 := by
  have hpos : 0 < q := (two_zpow_pos _).trans_le hq
  obtain ⟨sign, k, t, hsign, hrounds, hvalue⟩ := h.exact_eq hx
  rw [abs_of_pos hpos] at hsign hrounds
  cases sign with
  | negative =>
    rw [signed] at hsign
    linarith
  | positive =>
    rw [hvalue]
    exact hrounds.abs_sub_le_of_normal hq

theorem isWhole {n : ℕ} (h : IsRounded n x) (hn : n < 2 ^ 53) : IsWhole x n := by
  have hvalue : (Reading.finite false n 0).value = n := by
    rw [Reading.value, zpow_zero, mul_one]
    rfl
  have hkept : x.isFinite = true ∧ exact x = (Reading.finite false n 0).value :=
    of_natCast (hvalue.symm ▸ h) hn
  obtain ⟨hfinite, hexact⟩ := hkept
  exact ⟨hfinite, hexact.trans hvalue⟩

/-- A number that is rounded is not carried over a natural number. -/
theorem le_natCast (h : IsRounded q x) (hx : x.isFinite = true) {n : ℕ} (hn : n < 2 ^ 53)
    (hq : q ≤ n) : exact x ≤ n := by
  have hwhole := (isRounded_ofNat n).isWhole hn
  rw [← hwhole.exact_eq]
  exact h.mono hx (isRounded_ofNat n) hwhole.isFinite hq

theorem natCast_le (h : IsRounded q x) (hx : x.isFinite = true) {n : ℕ} (hn : n < 2 ^ 53)
    (hq : (n : ℚ) ≤ q) : n ≤ exact x := by
  have hwhole := (isRounded_ofNat n).isWhole hn
  rw [← hwhole.exact_eq]
  exact (isRounded_ofNat n).mono hwhole.isFinite h hx hq

end IsRounded

/-- The quotient of doubles, where it is neither too small nor too large, is off by a tiny part of
itself. -/
theorem div_near {x y : Float} (hx : x.isFinite = true) (hy : y.isFinite = true)
    (hpos : 0 < exact y) (hlow : leastNormal ≤ exact x / exact y)
    (hhigh : exact x / exact y ≤ 2 ^ 54) :
    (x / y).isFinite = true ∧ IsRounded (exact x / exact y) (x / y) ∧
      |exact (x / y) - exact x / exact y| ≤ exact (x / y) / 2 ^ 53 := by
  have hrounded := isRounded_div hx hy hpos.ne'
  have hnonneg : 0 ≤ exact x / exact y := (two_zpow_pos _).le.trans hlow
  have hfinite := hrounded.isFinite ((abs_of_nonneg hnonneg).trans_le (le_greatest hhigh))
  exact ⟨hfinite, hrounded, hrounded.abs_sub_le_of_normal hfinite hlow⟩

theorem leastNormal_le {q : ℚ} (hq : 1 / 2 ^ 40 ≤ q) : leastNormal ≤ q := by
  have hpow : leastNormal ≤ 2 ^ (-(40 : ℤ)) := two_zpow_le (by norm_num)
  rw [zpow_neg, ← one_div] at hpow
  exact hpow.trans (by exact_mod_cast hq)

namespace IsWhole

variable {x y : Float} {m n : ℕ}

theorem ofNat (hn : n < 2 ^ 53) : IsWhole (ofNat n) n := (isRounded_ofNat n).isWhole hn

theorem add (hx : IsWhole x m) (hy : IsWhole y n) (h : m + n < 2 ^ 53) :
    IsWhole (x + y) (m + n) := by
  have hrounded := isRounded_add hx.isFinite hy.isFinite
  rw [hx.exact_eq, hy.exact_eq, ← Nat.cast_add] at hrounded
  exact hrounded.isWhole h

theorem mul (hx : IsWhole x m) (hy : IsWhole y n) (h : m * n < 2 ^ 53) :
    IsWhole (x * y) (m * n) := by
  have hrounded := isRounded_mul hx.isFinite hy.isFinite
  rw [hx.exact_eq, hy.exact_eq, ← Nat.cast_mul] at hrounded
  exact hrounded.isWhole h

theorem sub (hx : IsWhole x m) (hy : IsWhole y n) (hle : n ≤ m) (h : m < 2 ^ 53) :
    IsWhole (x - y) (m - n) := by
  have hrounded := isRounded_sub hx.isFinite hy.isFinite
  rw [hx.exact_eq, hy.exact_eq, ← Nat.cast_sub hle] at hrounded
  exact hrounded.isWhole (by omega)

end IsWhole

theorem exists_reading_of_pos {x : Float} (hx : x.isFinite = true) (hpos : 0 < exact x) :
    ∃ m e, reading x = .finite false m e ∧ m < 2 ^ 53 ∧ exact x = m * 2 ^ e := by
  obtain ⟨negative, m, e, hreading, hm⟩ := exists_reading hx
  have hvalue := exact_of_reading hreading
  cases negative with
  | false => exact ⟨m, e, hreading, hm, hvalue⟩
  | true =>
    have hnonneg : (0 : ℚ) ≤ m * 2 ^ e := by positivity
    have hneg : exact x = -(m * 2 ^ e) := hvalue
    linarith

theorem ceil_natCast_div (m : ℕ) {unit : ℕ} (hunit : 0 < unit) :
    ⌈(m : ℚ) / unit⌉ = (if m % unit = 0 then m / unit else m / unit + 1 : ℕ) := by
  have hpos : (0 : ℚ) < unit := by exact_mod_cast hunit
  have hsplit := Nat.div_add_mod m unit
  have hrest := Nat.mod_lt m hunit
  generalize m / unit = whole at *
  split_ifs with hzero
  · have hm : (m : ℚ) = unit * whole := by exact_mod_cast (by omega : m = unit * whole)
    rw [hm, mul_div_cancel_left₀ _ hpos.ne', Int.ceil_natCast]
  · have hbelow : (whole * unit : ℚ) < m := by
      exact_mod_cast (by rw [Nat.mul_comm]; omega : whole * unit < m)
    have habove : (m : ℚ) ≤ (whole + 1) * unit := by
      exact_mod_cast (by rw [Nat.add_mul, Nat.mul_comm]; omega : m ≤ (whole + 1) * unit)
    rw [Int.ceil_eq_iff, lt_div_iff₀ hpos, div_le_iff₀ hpos]
    push_cast
    exact ⟨by linarith, habove⟩

section Integral

variable {x : Float}

/-- Where a double has a fraction, its whole part counts, with one more if it goes up; and its whole
part is the floor of its magnitude, with one more for the ceiling if anything is left. -/
theorem exact_integral_of_negSucc (up : (negative : Bool) → (rest unit : ℕ) → Bool)
    {negative : Bool} {m k : ℕ} (hreading : reading x = .finite negative m (.negSucc k))
    (hm : m < 2 ^ 53) :
    ∃ whole rest unit : ℕ, ⌊(m : ℚ) * 2 ^ (Int.negSucc k)⌋ = whole ∧
      ⌈(m : ℚ) * 2 ^ (Int.negSucc k)⌉ = (if rest = 0 then whole else whole + 1 : ℕ) ∧
      exact (integral up x) = (Reading.finite negative
        (if up negative rest unit then whole + 1 else whole) 0).value := by
  have hunit : 2 ≤ Nat.pow 2 (k + 1) := Nat.le_self_pow (by omega) 2
  have hhalf : m / Nat.pow 2 (k + 1) ≤ m / 2 := Nat.div_le_div_left hunit two_pos
  have hrounded := isRounded_nearest negative (if up negative (m % Nat.pow 2 (k + 1))
    (Nat.pow 2 (k + 1)) then m / Nat.pow 2 (k + 1) + 1 else m / Nat.pow 2 (k + 1)) 0
  have hvalue := (hrounded.of_natCast (by split_ifs <;> omega)).2
  have hdiv : (m : ℚ) * 2 ^ (Int.negSucc k) = (m : ℚ) / (Nat.pow 2 (k + 1) : ℕ) := by
    rw [zpow_negSucc, Nat.pow_eq, Nat.cast_pow, Nat.cast_ofNat, div_eq_mul_inv]
  refine ⟨m / Nat.pow 2 (k + 1), m % Nat.pow 2 (k + 1), Nat.pow 2 (k + 1), ?_, ?_, ?_⟩
  · rw [hdiv, Rat.floor_natCast_div_natCast]
    rfl
  · rw [hdiv, ceil_natCast_div m (by omega)]
  · rw [integral, hreading]
    exact hvalue

theorem exists_int_of_reading {negative : Bool} {m s : ℕ}
    (hreading : reading x = .finite negative m (.ofNat s)) : ∃ z : ℤ, exact x = z := by
  refine ⟨if negative then -(m * 2 ^ s : ℕ) else (m * 2 ^ s : ℕ), ?_⟩
  rw [exact_of_reading hreading, Reading.value, Int.ofNat_eq_natCast, zpow_natCast]
  cases negative <;> push_cast <;> rfl

/-- The floor of a double is the greatest integer that is not above it. -/
theorem exact_floor (hx : x.isFinite = true) : exact (floor x) = ⌊exact x⌋ := by
  obtain ⟨negative, m, e, hreading, hm⟩ := exists_reading hx
  cases e with
  | ofNat s =>
    obtain ⟨z, hz⟩ := exists_int_of_reading hreading
    rw [floor, exact_integral_of_integer (by simp) hx hz, hz, Int.floor_intCast]
  | negSucc k =>
    obtain ⟨whole, rest, unit, hfloor, hceil, hvalue⟩ :=
      exact_integral_of_negSucc (fun negative rest _ => negative && rest != 0) hreading hm
    rw [floor, hvalue]
    cases negative with
    | false =>
      have hexact : exact x = m * 2 ^ (Int.negSucc k) := exact_of_reading hreading
      rw [hexact, hfloor]
      simp [Reading.value]
    | true =>
      have hexact : exact x = -(m * 2 ^ (Int.negSucc k)) := exact_of_reading hreading
      rw [hexact, Int.floor_neg, hceil]
      by_cases hrest : rest = 0 <;> simp [Reading.value, hrest]

/-- The ceiling of a double is the least integer that is not below it. -/
theorem exact_ceil (hx : x.isFinite = true) : exact (ceil x) = ⌈exact x⌉ := by
  obtain ⟨negative, m, e, hreading, hm⟩ := exists_reading hx
  cases e with
  | ofNat s =>
    obtain ⟨z, hz⟩ := exists_int_of_reading hreading
    rw [ceil, exact_integral_of_integer (by simp) hx hz, hz, Int.ceil_intCast]
  | negSucc k =>
    obtain ⟨whole, rest, unit, hfloor, hceil, hvalue⟩ :=
      exact_integral_of_negSucc (fun negative rest _ => !negative && rest != 0) hreading hm
    rw [ceil, hvalue]
    cases negative with
    | false =>
      have hexact : exact x = m * 2 ^ (Int.negSucc k) := exact_of_reading hreading
      rw [hexact, hceil]
      by_cases hrest : rest = 0 <;> simp [Reading.value, hrest]
    | true =>
      have hexact : exact x = -(m * 2 ^ (Int.negSucc k)) := exact_of_reading hreading
      rw [hexact, Int.ceil_neg, hfloor]
      simp [Reading.value]

namespace IsWhole

variable {k : ℕ}

theorem floor (hx : x.isFinite = true) (hlow : k ≤ exact x) (hhigh : exact x < k + 1) :
    IsWhole (floor x) k where
  isFinite := (isFinite_integral _ x).trans hx
  exact_eq := by
    have hfloor : ⌊exact x⌋ = k := Int.floor_eq_iff.mpr ⟨hlow, hhigh⟩
    rw [exact_floor hx, hfloor, Int.cast_natCast]

theorem ceil (hx : x.isFinite = true) (hlow : k < exact x + 1) (hhigh : exact x ≤ k) :
    IsWhole (ceil x) k where
  isFinite := (isFinite_integral _ x).trans hx
  exact_eq := by
    have hceil : ⌈exact x⌉ = k := Int.ceil_eq_iff.mpr ⟨sub_lt_iff_lt_add.mpr hlow, hhigh⟩
    rw [exact_ceil hx, hceil, Int.cast_natCast]

end IsWhole

end Integral

/-- Counted in smaller units, a remainder is as many of these. -/
theorem mod_mul_unit {m n a b : ℕ} {unit : ℚ} (hunit : 0 < unit) (hm : m * unit = a)
    (hn : n * unit = b) : ((m % n : ℕ) : ℚ) * unit = (a % b : ℕ) := by
  have hquot : a / b = m / n := by
    rw [← Rat.natFloor_natCast_div_natCast, ← Rat.natFloor_natCast_div_natCast, ← hm, ← hn,
      mul_div_mul_right _ _ hunit.ne']
  have hcount : ((m % n : ℕ) : ℚ) = m - n * (m / n : ℕ) := by
    rw [eq_sub_iff_add_eq]
    exact_mod_cast Nat.mod_add_div m n
  have hrest : ((a % b : ℕ) : ℚ) = a - b * (a / b : ℕ) := by
    rw [eq_sub_iff_add_eq]
    exact_mod_cast Nat.mod_add_div a b
  rw [hcount, hrest, hquot, ← hm, ← hn]
  ring

namespace IsWhole

variable {x y : Float} {m n : ℕ}

/-- The remainder of natural numbers is exact, and bears no sign. -/
theorem remainder_eq (hx : IsWhole x m) (hy : IsWhole y n) (hm : 0 < m) (hn : 0 < n) :
    Number.remainder x y = Number.ofNat (m % n) := by
  obtain ⟨a, e, hreading, -, hvalue⟩ :=
    exists_reading_of_pos hx.isFinite (by rw [hx.exact_eq]; exact_mod_cast hm)
  obtain ⟨b, f, hreading', -, hvalue'⟩ :=
    exists_reading_of_pos hy.isFinite (by rw [hy.exact_eq]; exact_mod_cast hn)
  have hdivisor : b ≠ 0 := by
    rintro rfl
    rw [hy.exact_eq, Nat.cast_zero, zero_mul] at hvalue'
    exact hn.ne' (by exact_mod_cast hvalue')
  have hmod := mod_mul_unit (two_zpow_pos (min e f))
    ((mul_two_pow_toNat a (min_le_left e f)).trans (hvalue.symm.trans hx.exact_eq))
    ((mul_two_pow_toNat b (min_le_right e f)).trans (hvalue'.symm.trans hy.exact_eq))
  rw [Number.remainder, hreading, hreading']
  dsimp only
  rw [if_neg hdivisor]
  refine nearest_congr false (hmod.trans ?_)
  rw [zpow_zero, mul_one]

theorem remainder (hx : IsWhole x m) (hy : IsWhole y n) (hm : 0 < m) (hn : 0 < n)
    (hbound : n ≤ 2 ^ 53) : IsWhole (remainder x y) (m % n) := by
  have hlt := Nat.mod_lt m hn
  rw [hx.remainder_eq hy hm hn]
  exact .ofNat (by omega)

/-- The difference of natural numbers is exact, and bears no sign. -/
theorem sub_eq (hx : IsWhole x m) (hy : IsWhole y n) (hm : 0 < m) (hle : n ≤ m)
    (hbound : m < 2 ^ 53) : x - y = Number.ofNat (m - n) := by
  have hwhole := hx.sub hy hle hbound
  have hkept : IsWhole (Number.ofNat (m - n)) (m - n) := .ofNat (by omega)
  rcases hle.eq_or_lt with rfl | hlt
  · have hsame : x = y := by
      apply eq_of_exact_eq hx.isFinite hy.isFinite
      · rw [hx.exact_eq, hy.exact_eq]
      · rw [hx.exact_eq]
        exact_mod_cast hm.ne'
    rw [hsame, Nat.sub_self]
    exact sub_self_eq_zero hy.isFinite
  · apply eq_of_exact_eq hwhole.isFinite hkept.isFinite
    · rw [hwhole.exact_eq, hkept.exact_eq]
    · rw [hwhole.exact_eq]
      exact_mod_cast (Nat.sub_pos_of_lt hlt).ne'

end IsWhole

/-- Adding nothing changes nothing, as long as there is no zero whose sign could change. -/
theorem add_zero_eq {x : Float} (hx : x.isFinite = true) (hne : exact x ≠ 0) :
    x + ofNat 0 = x := by
  have hzero : IsWhole (ofNat 0) 0 := .ofNat (by norm_num)
  have hsum := isRounded_add hx hzero.isFinite
  rw [hzero.exact_eq, Nat.cast_zero, add_zero] at hsum
  exact hsum.unique (isRounded_exact hx) hne

end DeskCalculator.Number
