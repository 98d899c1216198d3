import DeskCalculator.Number.Display
import DeskCalculator.Proofs.Number.Decimals

/-!
Doubles next to an integer. What a double is off the nearest integer has no more digits than the
double, so the difference is computed without a rounding error, and comparing it with the tolerance
tells the doubles that lie nearer than `10 ^ -10` to an integer.
-/
namespace DeskCalculator.Number

/-- The tolerance is the number `10 ^ -10`, rounded. -/
theorem isRounded_integerTolerance : IsRounded (1 / 10 ^ 10) integerTolerance := by
  have hrounded := isRounded_toFloat 1 (-10)
  norm_num at hrounded ⊢
  exact hrounded

theorem isFinite_integerTolerance : integerTolerance.isFinite = true := by decide +kernel

/-- It has been rounded up. -/
theorem lt_exact_integerTolerance : 1 / 10 ^ 10 < exact integerTolerance := by
  have hreading : reading integerTolerance = .finite false 7737125245533627 (-86) := by
    decide +kernel
  rw [exact_of_reading hreading, Reading.value]
  norm_num

/-- Counting in whole units, the nearest count is off by at most half a unit, up or down, and by no
more than there is. -/
theorem exists_rest {m unit n : ℕ} (hunit : 0 < unit)
    (hn : (if unit ≤ 2 * (m % unit) then m / unit + 1 else m / unit) = n) :
    ∃ (above : Bool) (rest : ℕ), rest ≤ m ∧ 2 * rest ≤ unit ∧
      (m : ℤ) = n * unit + (if above then -(rest : ℤ) else rest) := by
  have hsplit : (m : ℤ) = (m / unit : ℕ) * unit + (m % unit : ℕ) := by
    exact_mod_cast (Nat.div_add_mod' m unit).symm
  have hrest := Nat.mod_lt m hunit
  have hle := Nat.mod_le m unit
  generalize m / unit = whole at *
  generalize m % unit = rest at *
  by_cases hup : unit ≤ 2 * rest
  · rw [if_pos hup] at hn
    refine ⟨true, unit - rest, by omega, by omega, ?_⟩
    rw [if_pos rfl, hsplit, ← hn]
    push_cast [hrest.le]
    ring
  · rw [if_neg hup] at hn
    refine ⟨false, rest, hle, by omega, ?_⟩
    rw [if_neg Bool.false_ne_true, hsplit, hn]

theorem sub_round_of_negSucc {x : Float} {negative : Bool} {m k : ℕ}
    (hreading : reading x = .finite negative m (.negSucc k)) (hm : m < 2 ^ 53) :
    ∃ below rest, rest ≤ m ∧ (rest : ℚ) * 2 ^ (Int.negSucc k) ≤ 1 / 2 ∧
      exact x - exact (round x) = (Reading.finite below rest (.negSucc k)).value := by
  have hgrain : (2 : ℚ) ^ (Int.negSucc k) = ((Nat.pow 2 (k + 1) : ℕ) : ℚ)⁻¹ := by
    rw [zpow_negSucc, Nat.pow_eq, Nat.cast_pow, Nat.cast_ofNat]
  have hunit : 2 ≤ Nat.pow 2 (k + 1) := Nat.le_self_pow (by omega) 2
  have hhalf : m / Nat.pow 2 (k + 1) ≤ m / 2 := Nat.div_le_div_left hunit two_pos
  rw [exact_of_reading hreading, round, integral, hreading]
  simp only [decide_eq_true_eq]
  generalize Nat.pow 2 (k + 1) = unit at *
  generalize hn : (if unit ≤ 2 * (m % unit) then m / unit + 1 else m / unit) = n
  have hlt : n < 2 ^ 53 := by
    rw [← hn]
    split_ifs <;> omega
  obtain ⟨above, rest, hle, hrest, hsplit⟩ := exists_rest (by omega) hn
  rw [((isRounded_nearest negative n 0).of_natCast hlt).2]
  have hpos : (0 : ℚ) < unit := by exact_mod_cast (by omega : 0 < unit)
  refine ⟨negative != above, rest, hle, ?_, ?_⟩
  · rw [hgrain, ← div_eq_mul_inv, div_le_div_iff₀ hpos two_pos, one_mul, mul_comm]
    exact_mod_cast hrest
  · have hcast : (m : ℚ) = n * unit + (if above then -(rest : ℚ) else rest) := by
      have hrational := congrArg (Int.cast (R := ℚ)) hsplit
      cases above <;> simpa using hrational
    simp only [Reading.value, hgrain, zpow_zero, mul_one, hcast]
    cases negative <;> cases above <;> simp <;> field_simp <;> ring

/-- No two integers are that near. -/
theorem int_eq_of_near {q : ℚ} {i j : ℤ} (hi : |q - i| ≤ 1 / 2) (hj : |q - j| < 1 / 2) :
    i = j := by
  obtain ⟨hlow, hhigh⟩ := abs_le.mp hi
  obtain ⟨hlow', hhigh'⟩ := abs_lt.mp hj
  have hbelow : i < j + 1 := by exact_mod_cast (by linarith : (i : ℚ) < j + 1)
  have habove : j < i + 1 := by exact_mod_cast (by linarith : (j : ℚ) < i + 1)
  omega

/-- Next to an integer and next to a natural number in magnitude are the same. -/
theorem exists_int_near_iff {q tolerance : ℚ} :
    (∃ z : ℤ, |q - z| < tolerance) ↔ ∃ n : ℕ, |abs q - n| < tolerance := by
  constructor
  · rintro ⟨z, hz⟩
    refine ⟨z.natAbs, lt_of_le_of_lt ?_ hz⟩
    rw [Nat.cast_natAbs, Int.cast_abs]
    exact abs_abs_sub_abs_le_abs_sub q z
  · rintro ⟨n, hn⟩
    rcases le_total 0 q with hq | hq
    · rw [abs_of_nonneg hq] at hn
      exact ⟨n, hn⟩
    · refine ⟨-n, ?_⟩
      rw [abs_of_nonpos hq, ← abs_neg, neg_sub, sub_neg_eq_add, add_comm] at hn
      rwa [Int.cast_neg, Int.cast_natCast, sub_neg_eq_add]

theorem neg_iff_of_near {q : ℚ} {z : ℤ} (h : |q - z| < 1) : (z : ℚ) < 0 ↔ q < 0 ∧ z ≠ 0 := by
  obtain ⟨hlow, hhigh⟩ := abs_lt.mp h
  constructor
  · intro hneg
    have hz : z + 1 ≤ 0 := by exact_mod_cast hneg
    have hcast : (z : ℚ) + 1 ≤ 0 := by exact_mod_cast hz
    exact ⟨by linarith, by omega⟩
  · rintro ⟨hneg, hne⟩
    by_contra! hnonneg
    have hz : 0 ≤ z := by exact_mod_cast hnonneg
    have hcast : (1 : ℚ) ≤ z := by exact_mod_cast (by omega : 1 ≤ z)
    linarith

section Rounding

variable {x : Float} (hx : x.isFinite = true)
include hx

theorem isFinite_round : (round x).isFinite = true := (isFinite_integral _ x).trans hx

theorem exists_int_round : ∃ z : ℤ, exact (round x) = z := by
  obtain ⟨negative, m, e, hreading, hm⟩ := exists_reading hx
  obtain ⟨-, n, hvalue, -⟩ := exact_integral_of_reading _ hreading hm hx
  refine ⟨if negative then -(n : ℤ) else n, ?_⟩
  rw [round, hvalue, Reading.value, zpow_zero, mul_one]
  cases negative <;> simp

/-- What is left beside the nearest integer, above it or below it, is at most half of one, and has
no more digits than the double itself. -/
theorem exists_beside_round :
    ∃ (below : Bool) (rest : ℕ) (e : ℤ), rest < 2 ^ 53 ∧ -1074 ≤ e ∧ e ≤ 971 ∧
      (rest : ℚ) * 2 ^ e ≤ 1 / 2 ∧
      exact x - exact (round x) = (Reading.finite below rest e).value := by
  obtain ⟨negative, m, e, hreading, hm⟩ := exists_reading hx
  obtain ⟨hleast, htop⟩ := exponent_of_reading hreading
  cases e with
  | ofNat s =>
    have hround : round x = x := by rw [round, integral, hreading]
    refine ⟨false, 0, 0, by norm_num, by norm_num, by norm_num, by norm_num, ?_⟩
    rw [hround, sub_self]
    simp [Reading.value]
  | negSucc k =>
    obtain ⟨below, rest, hle, hhalf, hvalue⟩ := sub_round_of_negSucc hreading hm
    exact ⟨below, rest, .negSucc k, hle.trans_lt hm, hleast, htop, hhalf, hvalue⟩

theorem abs_exact_sub_round_le : |exact x - exact (round x)| ≤ 1 / 2 := by
  obtain ⟨below, rest, e, -, -, -, hhalf, hvalue⟩ := exists_beside_round hx
  rw [hvalue, abs_value]
  exact hhalf

/-- The difference from the nearest integer is computed without a rounding error. -/
theorem exact_sub_round :
    (x - round x).isFinite = true ∧ exact (x - round x) = exact x - exact (round x) := by
  obtain ⟨below, rest, e, hrest, hleast, htop, -, hvalue⟩ := exists_beside_round hx
  have hrounded := isRounded_sub hx (isFinite_round hx)
  rw [hvalue] at hrounded ⊢
  exact hrounded.of_units hrest hleast htop

theorem exact_round_of_near {z : ℤ} (h : |exact x - z| < 1 / 2) : exact (round x) = z := by
  obtain ⟨z', hz'⟩ := exists_int_round hx
  have hhalf := abs_exact_sub_round_le hx
  rw [hz'] at hhalf ⊢
  rw [int_eq_of_near hhalf h]

/-- The tolerance is a double just above `10 ^ -10`, and no double lies in between, so comparing
with it decides what it is meant to decide. -/
theorem sub_round_lt_iff : (x - round x).abs < integerTolerance ↔
    |exact x - exact (round x)| < 1 / 10 ^ 10 := by
  obtain ⟨hsub, hexact⟩ := exact_sub_round hx
  have habs : (x - round x).abs.isFinite = true := (isFinite_abs _).trans hsub
  rw [lt_iff habs isFinite_integerTolerance, ← hexact, ← exact_abs]
  constructor
  · intro hlt
    by_contra! hle
    have hmono := isRounded_integerTolerance.mono isFinite_integerTolerance
      (isRounded_exact habs) habs hle
    exact absurd hlt hmono.not_gt
  · intro hlt
    exact hlt.trans lt_exact_integerTolerance

/-- What is shown as an integer lies next to one. -/
theorem next_to_integer_iff : (x - round x).abs < integerTolerance ↔
    ∃ z : ℤ, |exact x - z| < 1 / 10 ^ 10 := by
  rw [sub_round_lt_iff hx]
  constructor
  · intro hlt
    obtain ⟨z, hz⟩ := exists_int_round hx
    exact ⟨z, hz ▸ hlt⟩
  · rintro ⟨z, hz⟩
    have hnear : |exact x - z| < 1 / 2 := hz.trans (by norm_num)
    rwa [exact_round_of_near hx hnear]

end Rounding

/-- A double that is no integer has digits to spare below the unit, and so lies far inside the
range of doubles. -/
theorem abs_exact_lt_of_not_integer {x : Float} (hx : x.isFinite = true)
    (h : ∀ z : ℤ, exact x ≠ z) : |exact x| < 2 ^ 53 := by
  obtain ⟨negative, m, e, hreading, hm⟩ := exists_reading hx
  rw [abs_exact_of_reading hreading]
  cases e with
  | ofNat s =>
    refine absurd ?_ (h (if negative then -(m * 2 ^ s) else m * 2 ^ s))
    rw [exact_of_reading hreading]
    cases negative <;> simp [Reading.value]
  | negSucc k =>
    have hbound : (m : ℚ) < 2 ^ 53 := by exact_mod_cast hm
    have hunit : (2 : ℚ) ^ Int.negSucc k ≤ 1 :=
      zpow_le_one_of_nonpos₀ one_le_two (Int.negSucc_lt_zero k).le
    exact (mul_le_of_le_one_right (Nat.cast_nonneg m) hunit).trans_lt hbound

end DeskCalculator.Number
