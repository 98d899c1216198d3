import DeskCalculator.Proofs.Number.Whole
import DeskCalculator.Proofs.Split.Settling
import Mathlib.Order.Bounds.Defs

/-!
Whole bills split evenly in doubles. A share is a quotient that is rounded, and under rounding up it
is divided by a hundred and rounded again. Totals of at most `2 ^ 52` leave so much room between a
share and the next whole amount that the errors never carry it there, so the settlement is the one
of integer division.
-/
namespace DeskCalculator.Split

open Number

section Shares

variable {total : Float} {n people : ℕ} (htotal : IsWhole total n) (hpos : 1 ≤ n)
  (hn : n ≤ 2 ^ 52) (hsome : 1 ≤ people) (hpeople : people < 2 ^ 32)
include htotal hpos hn hsome hpeople

/-- The share of each, not yet rounded to a whole amount. -/
theorem quotient_near :
    (total / Number.ofNat people).isFinite = true ∧
      IsRounded ((n : ℚ) / people) (total / Number.ofNat people) ∧
      |exact (total / Number.ofNat people) - n / people|
        ≤ exact (total / Number.ofNat people) / 2 ^ 53 := by
  have hheads : IsWhole (Number.ofNat people) people := .ofNat (by omega)
  have hone : (1 : ℚ) ≤ people := by exact_mod_cast hsome
  have hmany : (people : ℚ) ≤ 2 ^ 32 := by exact_mod_cast hpeople.le
  have hlow : (1 : ℚ) ≤ n := by exact_mod_cast hpos
  have hhigh : (n : ℚ) ≤ 2 ^ 52 := by exact_mod_cast hn
  rw [← htotal.exact_eq] at hlow hhigh ⊢
  rw [← hheads.exact_eq] at hone hmany ⊢
  have hheadspos := one_pos.trans_le hone
  refine div_near htotal.isFinite hheads.isFinite hheadspos (leastNormal_le ?_) ?_
  · rw [div_le_div_iff₀ (by positivity) hheadspos]
    linarith
  · rw [div_le_iff₀ hheadspos]
    linarith

/-- What all pay together, if nothing is rounded to a whole amount. -/
theorem collected_near :
    |exact (total / Number.ofNat people) * people - n|
      ≤ exact (total / Number.ofNat people) * people / 2 ^ 53 := by
  obtain ⟨-, -, hnear⟩ := quotient_near htotal hpos hn hsome hpeople
  have hpeoplepos : (0 : ℚ) < people := by exact_mod_cast hsome
  have hscale := mul_le_mul_of_nonneg_right hnear hpeoplepos.le
  rwa [← abs_of_pos hpeoplepos, ← abs_mul, abs_of_pos hpeoplepos, sub_mul,
    div_mul_cancel₀ _ hpeoplepos.ne', div_mul_eq_mul_div] at hscale

/-- The truncated share is the integer quotient. -/
theorem truncated_isWhole :
    IsWhole (Number.floor (total / Number.ofNat people)) (n / people) := by
  obtain ⟨hfinite, hrounded, -⟩ := quotient_near htotal hpos hn hsome hpeople
  have hnear := (abs_sub_le_iff.mp (collected_near htotal hpos hn hsome hpeople)).1
  have hbelow : n / people ≤ n := Nat.div_le_self n people
  refine .floor hfinite (hrounded.natCast_le hfinite (by omega) Nat.cast_div_le) ?_
  by_contra! habove
  have hnext : n + 1 ≤ (n / people + 1) * people := by
    rw [Nat.mul_comm]
    exact Nat.lt_mul_div_succ n hsome
  have hreached : ((n + 1 : ℕ) : ℚ) ≤ exact (total / Number.ofNat people) * people := by
    calc ((n + 1 : ℕ) : ℚ) ≤ ((n / people + 1) * people : ℕ) := by exact_mod_cast hnext
      _ = ((n / people : ℕ) + 1) * people := by push_cast; rfl
      _ ≤ _ := mul_le_mul_of_nonneg_right habove (Nat.cast_nonneg people)
  have hhigh : (n : ℚ) ≤ 2 ^ 52 := by exact_mod_cast hn
  push_cast at hreached
  linarith

/-- A hundredth of a share is divided again, and rounded again. -/
theorem hundredth_near (hshare : exact (total / Number.ofNat people) ≤ 2 ^ 53) :
    let share := total / Number.ofNat people
    (share / Number.ofNat 100).isFinite = true ∧
      IsRounded (exact share / 100) (share / Number.ofNat 100) ∧
      |exact (share / Number.ofNat 100) - exact share / 100|
        ≤ exact (share / Number.ofNat 100) / 2 ^ 53 := by
  intro share
  obtain ⟨hfinite, -, hnear⟩ := quotient_near htotal hpos hn hsome hpeople
  have hhundred : IsWhole (Number.ofNat 100) 100 := .ofNat (by norm_num)
  have hvalue : exact (Number.ofNat 100) = 100 := hhundred.exact_eq
  have hleast : 1 / 2 ^ 32 ≤ (n : ℚ) / people := by
    refine div_le_div₀ (Nat.cast_nonneg n) (by exact_mod_cast hpos) (by exact_mod_cast hsome) ?_
    exact_mod_cast hpeople.le
  have hbelow := (abs_sub_le_iff.mp hnear).2
  have hresult := div_near hfinite hhundred.isFinite (by rw [hvalue]; norm_num)
    (by rw [hvalue]; exact leastNormal_le (by linarith)) (by rw [hvalue]; linarith)
  rwa [hvalue] at hresult

variable {k : ℕ} (hlow : 100 * people * k < n) (hhigh : n ≤ 100 * people * (k + 1))
include hlow hhigh

theorem hundreds_isWhole :
    IsWhole (Number.ceil (total / Number.ofNat people / Number.ofNat 100)) (k + 1) := by
  obtain ⟨hfinite, hrounded, -⟩ := quotient_near htotal hpos hn hsome hpeople
  have hcollected := (abs_sub_le_iff.mp (collected_near htotal hpos hn hsome hpeople)).2
  have hpeoplepos : (0 : ℚ) < people := by exact_mod_cast hsome
  have hhundreds : 100 * k ≤ 100 * people * k := by
    rw [Nat.mul_right_comm]
    exact Nat.le_mul_of_pos_right _ hsome
  have hshare : exact (total / Number.ofNat people) ≤ (100 * (k + 1) : ℕ) := by
    refine hrounded.le_natCast hfinite (by omega) ?_
    rw [div_le_iff₀ hpeoplepos]
    exact_mod_cast (by rwa [Nat.mul_right_comm] : n ≤ 100 * (k + 1) * people)
  have hbound : ((100 * (k + 1) : ℕ) : ℚ) ≤ 2 ^ 53 := by exact_mod_cast (by omega)
  obtain ⟨hfinite', hrounded', hnear'⟩ :=
    hundredth_near htotal hpos hn hsome hpeople (hshare.trans hbound)
  have hbelow := (abs_sub_le_iff.mp hnear').2
  push_cast at hshare
  refine .ceil hfinite' ?_ (hrounded'.le_natCast hfinite' (by omega) (by push_cast; linarith))
  push_cast
  by_contra! hreached
  -- Rounding twice would have lost one of fewer than `2 ^ 52`.
  have hprevious : 100 * people * (k : ℚ) ≤ n - 1 := by
    rw [le_sub_iff_add_le]
    exact_mod_cast hlow
  have htwice := calc exact (total / Number.ofNat people) * people
    _ ≤ 100 * (k * (1 + 1 / 2 ^ 53)) * people :=
        mul_le_mul_of_nonneg_right (by linarith) hpeoplepos.le
    _ = 100 * people * k * (1 + 1 / 2 ^ 53) := by ring
    _ ≤ (n - 1) * (1 + 1 / 2 ^ 53) := mul_le_mul_of_nonneg_right hprevious (by positivity)
  have hsmall : (n : ℚ) ≤ 2 ^ 52 := by exact_mod_cast hn
  linarith

omit htotal hpos hhigh in
theorem paid_lt : 100 * (k + 1) * people < 2 ^ 53 := by
  have hnext : 100 * (k + 1) * people = 100 * people * k + 100 * people := by ring
  omega

omit htotal hpos hhigh in
/-- The collected hundreds are exact. -/
theorem paid_isWhole {hundreds : Float} (hhundreds : IsWhole hundreds (k + 1)) :
    IsWhole (hundreds * Number.ofNat 100) (100 * (k + 1)) ∧
      IsWhole (hundreds * Number.ofNat 100 * Number.ofNat people) (100 * (k + 1) * people) := by
  have hbound := paid_lt hn hsome hpeople hlow
  have hheads : IsWhole (Number.ofNat people) people := .ofNat (by omega)
  have hshare : IsWhole (hundreds * Number.ofNat 100) (100 * (k + 1)) := by
    have hle := Nat.le_mul_of_pos_right (100 * (k + 1)) hsome
    rw [Nat.mul_comm 100 (k + 1)] at hle hbound ⊢
    exact hhundreds.mul (.ofNat (by norm_num)) (by omega)
  exact ⟨hshare, hshare.mul hheads hbound⟩

omit hpos in
/-- What they are in excess of the total is exact too. -/
theorem excess_isWhole {hundreds : Float} (hhundreds : IsWhole hundreds (k + 1)) :
    IsWhole (hundreds * Number.ofNat 100) (100 * (k + 1)) ∧
      IsWhole (hundreds * Number.ofNat 100 * Number.ofNat people - total)
        (100 * (k + 1) * people - n) := by
  obtain ⟨hshare, hpaid⟩ := paid_isWhole hn hsome hpeople hlow hhundreds
  have hcovered : n ≤ 100 * (k + 1) * people := by rwa [Nat.mul_right_comm]
  exact ⟨hshare, hpaid.sub htotal hcovered (paid_lt hn hsome hpeople hlow)⟩

end Shares

/-- Some number of hundreds from each is just too little, and one more is enough. -/
theorem exists_hundreds {n people : ℕ} (hpos : 1 ≤ n) (hsome : 1 ≤ people) :
    ∃ k, 100 * people * k < n ∧ n ≤ 100 * people * (k + 1) := by
  have hbelow := Nat.mul_div_le (n - 1) (100 * people)
  have habove := Nat.lt_mul_div_succ (n - 1) (by omega : 0 < 100 * people)
  exact ⟨(n - 1) / (100 * people), by omega, by omega⟩

/-- The least multiple of a hundred that pays the total. -/
theorem isLeast_hundreds {n people k : ℕ} (hlow : 100 * people * k < n)
    (hhigh : n ≤ 100 * people * (k + 1)) :
    IsLeast {share : ℕ | 100 ∣ share ∧ n ≤ share * people} (100 * (k + 1)) := by
  refine ⟨⟨Nat.dvd_mul_right 100 (k + 1), by rwa [Nat.mul_right_comm]⟩, ?_⟩
  rintro share ⟨⟨c, rfl⟩, hpaid⟩
  rw [Nat.mul_right_comm] at hpaid
  exact Nat.mul_le_mul_left 100 (Nat.lt_of_mul_lt_mul_left (hlow.trans_le hpaid))

/-- A whole total of at most `2 ^ 52` is settled as in integer division: truncated, each pays the
quotient and the rest is missing; rounded up, each pays the least multiple of a hundred that covers
the total, and the rest is in excess. No rounding of the doubles in between shows. -/
theorem settleEvenly_eq_integer_division {total : Float} {n people : ℕ} (rounding : Rounding)
    (htotal : IsWhole total n) (hpos : 1 ≤ n) (hn : n ≤ 2 ^ 52) (hsome : 1 ≤ people)
    (hpeople : people < 2 ^ 32) :
    ∃ perPerson remainder,
      settleEvenly total people rounding = .ok (.even perPerson remainder) ∧
      match rounding with
      | .truncate =>
        IsWhole perPerson (n / people) ∧ IsWhole remainder (n % people) ∧
          exact perPerson * people + exact remainder = exact total ∧
          0 ≤ exact remainder ∧ exact remainder < people
      | .upToHundred =>
        ∃ share, IsLeast {share : ℕ | 100 ∣ share ∧ n ≤ share * people} share ∧
          IsWhole perPerson share ∧ IsWhole remainder (share * people - n) ∧
          exact perPerson * people - exact remainder = exact total ∧
          0 ≤ exact remainder ∧ exact remainder < 100 * people := by
  have hbill : checkBill total people = .ok () := by
    refine checkBill_eq_ok_iff.mpr ⟨htotal.isFinite, decide_eq_true ?_, hsome⟩
    rw [lt_iff (by decide +kernel) htotal.isFinite, exact_zero, htotal.exact_eq]
    exact_mod_cast hpos
  cases rounding with
  | truncate =>
    have hshare := truncated_isWhole htotal hpos hn hsome hpeople
    have hrest : IsWhole (Number.remainder total (Number.ofNat people)) (n % people) :=
      htotal.remainder (.ofNat (by omega)) hpos hsome (by omega)
    refine ⟨Number.floor (total / Number.ofNat people),
      Number.remainder total (Number.ofNat people), settleEvenly_eq_ok_iff.mpr ⟨hbill, rfl⟩,
      hshare, hrest, ?_⟩
    rw [hshare.exact_eq, hrest.exact_eq, htotal.exact_eq]
    refine ⟨?_, Nat.cast_nonneg _, by exact_mod_cast Nat.mod_lt n hsome⟩
    exact_mod_cast Nat.div_add_mod' n people
  | upToHundred =>
    obtain ⟨k, hlow, hhigh⟩ := exists_hundreds hpos hsome
    obtain ⟨hshare, hrest⟩ := excess_isWhole htotal hn hsome hpeople hlow hhigh
      (hundreds_isWhole htotal hpos hn hsome hpeople hlow hhigh)
    have hpaid : n ≤ 100 * (k + 1) * people := by rwa [Nat.mul_right_comm]
    refine ⟨Number.ceil (total / Number.ofNat people / Number.ofNat 100) * Number.ofNat 100,
      Number.ceil (total / Number.ofNat people / Number.ofNat 100) * Number.ofNat 100
        * Number.ofNat people - total, settleEvenly_eq_ok_iff.mpr ⟨hbill, rfl⟩,
      100 * (k + 1), isLeast_hundreds hlow hhigh, hshare, hrest, ?_⟩
    rw [hshare.exact_eq, hrest.exact_eq, htotal.exact_eq]
    refine ⟨?_, Nat.cast_nonneg _, ?_⟩
    · rw [Nat.cast_sub hpaid]
      push_cast
      exact sub_sub_cancel _ _
    · have hexcess : 100 * (k + 1) * people - n < 100 * people := by
        have hnext : 100 * (k + 1) * people = 100 * people * k + 100 * people := by ring
        omega
      exact_mod_cast hexcess

/-- One more than seven people pay in whole hundreds, so each pays a hundred more. -/
theorem settleEvenly_one_over_hundreds :
    ∃ perPerson remainder,
      settleEvenly (Number.ofNat 4503599627370201) 7 .upToHundred
        = .ok (.even perPerson remainder) ∧
      IsWhole perPerson 643371375338700 ∧ IsWhole remainder 699 := by
  have htotal : IsWhole (Number.ofNat 4503599627370201) 4503599627370201 := .ofNat (by norm_num)
  obtain ⟨perPerson, remainder, hsettled, share, hleast, hshare, hrest, -⟩ :=
    settleEvenly_eq_integer_division .upToHundred htotal (by norm_num) (by norm_num)
      (by norm_num : 1 ≤ 7) (by norm_num)
  have hvalue : share = 643371375338700 := by
    refine hleast.unique ⟨⟨by decide, by decide⟩, ?_⟩
    rintro other ⟨⟨c, rfl⟩, hpaid⟩
    omega
  subst hvalue
  exact ⟨perPerson, remainder, hsettled, hshare, hrest⟩

end DeskCalculator.Split
