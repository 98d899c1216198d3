import DeskCalculator.Proofs.Number.Grid
import Mathlib

/-!
The rounding of doubles. A number is held as a mantissa with two bits behind it: one says whether
the rest reaches half a unit, the other whether anything else is left. Shifting to the exponent in
which a double counts keeps these bits right, and so the mantissa is rounded to the nearest one.
-/
namespace DeskCalculator.Number

open Float.Model Float.Model.UnpackedFloat

/-- A mantissa with its round bit and its sticky bit stands for `x`. -/
def Represents (em : ExtendedMantissa) (x : ℚ) : Prop :=
  match em.roundBit, em.stickyBit with
  | false, false => x = em.mantissa
  | false, true => em.mantissa < x ∧ x < em.mantissa + 1 / 2
  | true, false => x = em.mantissa + 1 / 2
  | true, true => em.mantissa + 1 / 2 < x ∧ x < em.mantissa + 1

theorem represents_exact (m : ℕ) :
    Represents (ExtendedMantissa.ofMantissaAndAccuracy m .exact) m := rfl

theorem represents_fraction (m : ℕ) {num den : ℕ} (hlt : num < den) :
    Represents (ExtendedMantissa.ofMantissaAndAccuracy m (accuracyOfFraction num den))
      (m + num / den) := by
  have hden : (0 : ℚ) < den := by exact_mod_cast Nat.zero_lt_of_lt hlt
  have hrest : (num : ℚ) / den < 1 := (div_lt_one hden).mpr (by exact_mod_cast hlt)
  rw [accuracyOfFraction]
  split_ifs with hzero
  · simp [hzero, represents_exact]
  · have hpos : (0 : ℚ) < num / den :=
      div_pos (by exact_mod_cast Nat.pos_of_ne_zero hzero) hden
    rcases hcmp : compare (2 * num) den with _ | _ | _
    · have hhalf : (num : ℚ) / den < 1 / 2 := by
        rw [div_lt_div_iff₀ hden two_pos]
        exact_mod_cast (by have := compare_lt_iff_lt.mp hcmp; omega : num * 2 < 1 * den)
      change (m : ℚ) < m + num / den ∧ (m : ℚ) + num / den < m + 1 / 2
      exact ⟨by linarith, by linarith⟩
    · have hhalf : (num : ℚ) / den = 1 / 2 := by
        rw [div_eq_div_iff hden.ne' two_ne_zero]
        exact_mod_cast (by have := compare_eq_iff_eq.mp hcmp; omega : num * 2 = 1 * den)
      exact congrArg ((m : ℚ) + ·) hhalf
    · have hhalf : 1 / 2 < (num : ℚ) / den := by
        rw [div_lt_div_iff₀ two_pos hden]
        exact_mod_cast (by have := compare_gt_iff_gt.mp hcmp; omega : 1 * den < num * 2)
      change (m : ℚ) + 1 / 2 < m + num / den ∧ (m : ℚ) + num / den < m + 1
      exact ⟨by linarith, by linarith⟩

/-- A quotient is its whole part and the rest over the divisor. -/
theorem cast_div_eq (a : ℕ) {b : ℕ} (hb : 0 < b) :
    (a : ℚ) / b = (a / b : ℕ) + (a % b : ℕ) / b := by
  have hparts : (a : ℚ) = b * (a / b : ℕ) + (a % b : ℕ) := by
    exact_mod_cast (Nat.div_add_mod a b).symm
  have hne : (b : ℚ) ≠ 0 := by exact_mod_cast hb.ne'
  conv_lhs => rw [hparts]
  field_simp

namespace Represents

variable {em : ExtendedMantissa} {x : ℚ}

theorem le (h : Represents em x) : em.mantissa ≤ x := by
  obtain ⟨m, _ | _, _ | _⟩ := em
  · exact h.ge
  · exact h.1.le
  · exact le_of_le_of_eq (by simp) h.symm
  · exact le_trans (by simp) h.1.le

theorem lt (h : Represents em x) : x < em.mantissa + 1 := by
  obtain ⟨m, _ | _, _ | _⟩ := em
  · exact lt_of_eq_of_lt h (by simp)
  · exact h.2.trans (by norm_num)
  · exact lt_of_eq_of_lt h (by norm_num)
  · exact h.2

theorem shiftRightOne (h : Represents em x) : Represents em.shiftRightOne (x / 2) := by
  obtain ⟨m, roundBit, stickyBit⟩ := em
  obtain ⟨n, rfl | rfl⟩ : ∃ n, m = 2 * n ∨ m = 2 * n + 1 := ⟨m / 2, by omega⟩
  · have hshift : ExtendedMantissa.shiftRightOne ⟨2 * n, roundBit, stickyBit⟩ =
        ⟨n, false, roundBit || stickyBit⟩ := by
      simp [ExtendedMantissa.shiftRightOne]
    rw [hshift]
    cases roundBit <;> cases stickyBit <;>
      simp only [Represents, Bool.or_false, Bool.or_true] at h ⊢ <;> push_cast at h
    · linarith
    all_goals exact ⟨by linarith, by linarith⟩
  · have hshift : ExtendedMantissa.shiftRightOne ⟨2 * n + 1, roundBit, stickyBit⟩ =
        ⟨n, true, roundBit || stickyBit⟩ := by
      have hhalf : (2 * n + 1) / 2 = n := by omega
      have hbit : (2 * n + 1) % 2 = 1 := by omega
      simp [ExtendedMantissa.shiftRightOne, hhalf, hbit]
    rw [hshift]
    cases roundBit <;> cases stickyBit <;>
      simp only [Represents, Bool.or_false, Bool.or_true] at h ⊢ <;> push_cast at h
    · linarith
    all_goals exact ⟨by linarith, by linarith⟩

theorem shiftRight (h : Represents em x) (n : ℕ) : Represents (em >>> n) (x / 2 ^ n) := by
  change Represents (n.repeat ExtendedMantissa.shiftRightOne em) _
  induction n with
  | zero => simpa [Nat.repeat] using h
  | succ n ih =>
    rw [Nat.repeat, pow_succ, ← div_div]
    exact ih.shiftRightOne

/-- The rounded mantissa is the nearest one. -/
theorem isNearest (h : Represents em x) : IsNearest em.roundedMantissa x := by
  obtain ⟨m, _ | _, _ | _⟩ := em
  · obtain rfl : x = m := h
    exact IsNearest.natCast m
  · obtain ⟨hlo, hhi⟩ : (m : ℚ) < x ∧ x < m + 1 / 2 := h
    have hnear : |x - m| < 1 / 2 := abs_lt.mpr ⟨by linarith, by linarith⟩
    exact ⟨hnear.le, fun heq => absurd heq hnear.ne⟩
  · have hx : x = m + 1 / 2 := h
    have hrounded : ExtendedMantissa.roundedMantissa ⟨m, true, false⟩ = m + m % 2 := rfl
    rw [hrounded]
    refine ⟨?_, fun _ => by omega⟩
    rcases Nat.mod_two_eq_zero_or_one m with hbit | hbit <;> rw [hx, hbit] <;> norm_num
  · obtain ⟨hlo, hhi⟩ : (m : ℚ) + 1 / 2 < x ∧ x < m + 1 := h
    have hrounded : ExtendedMantissa.roundedMantissa ⟨m, true, true⟩ = m + 1 := rfl
    have hnear : |x - (m + 1 : ℕ)| < 1 / 2 := by
      push_cast
      exact abs_lt.mpr ⟨by linarith, by linarith⟩
    rw [hrounded]
    exact ⟨hnear.le, fun heq => absurd heq hnear.ne⟩

end Represents

/-- The exponent in which a double counts a number whose first digit is that of `m · 2 ^ e`. -/
theorem targetExponent_eq (m : ℕ) (e : ℤ) :
    Format.binary64.targetExponent (totalExponent m e) = max (Nat.log2 m + e - 52) (-1074) := by
  have hmin : Format.binary64.minExponent = -1074 := by decide
  have hbits : (Format.binary64.mantissaBits : ℤ) = 53 := by decide
  rw [Format.targetExponent, totalExponent, hmin, hbits]
  congr 1
  omega

theorem isUlp_targetExponent {m : ℕ} {e : ℤ} {q : ℚ} (hle : m ≤ q / 2 ^ e)
    (hlt : q / 2 ^ e < m + 1) (htarget : e ≤ max (Nat.log2 m + e - 52) (-1074)) :
    IsUlp q (max (Nat.log2 m + e - 52) (-1074)) := by
  have hpos := two_zpow_pos e
  rw [le_div_iff₀ hpos] at hle
  rw [div_lt_iff₀ hpos] at hlt
  have hsplit : ∀ n : ℕ, ∀ s : ℤ, (2 : ℚ) ^ n * 2 ^ s = 2 ^ (n + s) := by
    intro n s
    rw [zpow_add₀ two_ne_zero, zpow_natCast]
  refine ⟨le_max_right _ _, ?_, ?_⟩
  · rcases le_total ((Nat.log2 m : ℤ) + e - 52) (-1074) with hsmall | hlarge
    · exact Or.inl (max_eq_right hsmall)
    · right
      rw [max_eq_left hlarge] at htarget ⊢
      have hm : m ≠ 0 := by
        rintro rfl
        simp at htarget
      have hlog : (2 : ℚ) ^ Nat.log2 m ≤ m := by exact_mod_cast Nat.log2_self_le hm
      calc (2 : ℚ) ^ 52 * 2 ^ ((Nat.log2 m : ℤ) + e - 52)
          = 2 ^ Nat.log2 m * 2 ^ e := by
            rw [hsplit, hsplit]
            congr 1
            push_cast
            ring
        _ ≤ m * 2 ^ e := mul_le_mul_of_nonneg_right hlog hpos.le
        _ ≤ q := hle
  · have hlog : (m : ℚ) + 1 ≤ 2 ^ (Nat.log2 m + 1) := by exact_mod_cast Nat.lt_log2_self
    have htop := two_zpow_le (le_max_left ((Nat.log2 m : ℤ) + e - 52) (-1074))
    calc q < (m + 1) * 2 ^ e := hlt
      _ ≤ 2 ^ (Nat.log2 m + 1) * 2 ^ e := mul_le_mul_of_nonneg_right hlog hpos.le
      _ = 2 ^ 53 * 2 ^ ((Nat.log2 m : ℤ) + e - 52) := by
        rw [hsplit, hsplit]
        congr 1
        push_cast
        ring
      _ ≤ 2 ^ 53 * 2 ^ max ((Nat.log2 m : ℤ) + e - 52) (-1074) := by gcongr

/-- The value `± k · 2 ^ t` as a double is unpacked; `k` may have become one digit too long. -/
def unpacked (sign : Sign) (k : ℕ) (t : ℤ) : UnpackedFloat :=
  if h : k = 0 then .zero sign
  else if k = 2 ^ 53 then .finite sign (2 ^ 52) (t + 1) (by norm_num)
  else .finite sign k t (Nat.pos_of_ne_zero h)

/-- A mantissa that has been rounded up to one digit too many is shifted once more. -/
theorem shiftToTargetExponent_rounded {k : ℕ} {t : ℤ} (hk : k ≤ 2 ^ 53) (ht : -1074 ≤ t) :
    shiftToTargetExponent Format.binary64 k t .exact =
      if k = 2 ^ 53 then (⟨2 ^ 52, false, false⟩, t + 1) else (⟨k, false, false⟩, t) := by
  rw [shiftToTargetExponent, targetExponent_eq, shiftToExponent]
  split_ifs with hfull
  · have hlog : Nat.log2 k = 53 := by rw [hfull]; exact Nat.log2_two_pow
    have hshift : (max ((Nat.log2 k : ℤ) + t - 52) (-1074) - t).toNat = 1 := by omega
    rw [hshift, hfull]
    rfl
  · have hlog : Nat.log2 k ≤ 52 := by
      rcases Nat.eq_zero_or_pos k with rfl | hpos
      · simp
      · exact Nat.le_of_lt_succ ((Nat.log2_lt hpos.ne').mpr (by omega))
    have hshift : (max ((Nat.log2 k : ℤ) + t - 52) (-1074) - t).toNat = 0 := by omega
    rw [hshift]
    exact Prod.ext rfl (by simp)

/-- What is known of `q` from a mantissa and its accuracy is enough to round `q` right, when the
mantissa is counted in units no larger than a double counts in. -/
theorem roundWithAccuracy_eq {m : ℕ} {e : ℤ} {accuracy : Accuracy} {q : ℚ} (sign : Sign)
    (h : Represents (ExtendedMantissa.ofMantissaAndAccuracy m accuracy) (q / 2 ^ e))
    (htarget : e ≤ max (Nat.log2 m + e - 52) (-1074)) :
    ∃ k t, RoundsTo q k t ∧
      roundWithAccuracy Format.binary64 sign m e accuracy = unpacked sign k t := by
  have hm : (ExtendedMantissa.ofMantissaAndAccuracy m accuracy).mantissa = m := by
    rcases accuracy with _ | (_ | _ | _) <;> rfl
  have hulp := isUlp_targetExponent (hm ▸ h.le) (hm ▸ h.lt) htarget
  generalize htop : max ((Nat.log2 m : ℤ) + e - 52) (-1074) = t at htarget hulp
  -- Digits that are shifted out still count, in the two bits behind the mantissa.
  obtain ⟨s, hs⟩ := Int.eq_ofNat_of_zero_le (Int.sub_nonneg_of_le htarget)
  have hshift : shiftToTargetExponent Format.binary64 m e accuracy =
      (ExtendedMantissa.ofMantissaAndAccuracy m accuracy >>> s, t) := by
    rw [shiftToTargetExponent, targetExponent_eq, htop, shiftToExponent, hs, Int.toNat_natCast,
      ← hs, add_sub_cancel]
  have hshifted := (h.shiftRight s).isNearest
  rw [div_div, ← zpow_natCast, ← zpow_add₀ two_ne_zero, ← hs, add_sub_cancel] at hshifted
  generalize ExtendedMantissa.ofMantissaAndAccuracy m accuracy >>> s = em at hshift hshifted
  have hrounds : RoundsTo q em.roundedMantissa t := ⟨hulp, hshifted⟩
  refine ⟨_, t, hrounds, ?_⟩
  have hfinal := shiftToTargetExponent_rounded hrounds.le_two_pow hulp.least
  simp only [roundWithAccuracy, hshift, hfinal, unpacked]
  split_ifs <;> simp_all

/-- A number without a rest is rounded right when it has enough digits or is counted finely
enough. -/
theorem roundWithAccuracy_exact {m : ℕ} {e : ℤ} (sign : Sign) (h : 2 ^ 52 ≤ m ∨ e ≤ -1074) :
    ∃ k t, RoundsTo (m * 2 ^ e) k t ∧
      roundWithAccuracy Format.binary64 sign m e .exact = unpacked sign k t := by
  apply roundWithAccuracy_eq
  · rw [mul_div_cancel_right₀ _ (two_zpow_pos e).ne']
    exact represents_exact m
  · rcases h with hm | he
    · have hlog : 52 ≤ Nat.log2 m := (Nat.le_log2 (by omega)).mpr hm
      omega
    · omega

theorem roundWithAccuracy_zero (sign : Sign) (e : ℤ) :
    roundWithAccuracy Format.binary64 sign 0 e .exact = .zero sign := by
  have hshifted : ∀ n : ℕ,
      Represents (ExtendedMantissa.ofMantissaAndAccuracy 0 .exact >>> n) 0 := by
    intro n
    simpa using (represents_exact 0).shiftRight n
  have hrounded : ∀ n : ℕ,
      (ExtendedMantissa.ofMantissaAndAccuracy 0 .exact >>> n).roundedMantissa = 0 := by
    intro n
    exact (hshifted n).isNearest.unique (IsNearest.natCast 0)
  have hmantissa : ∀ n : ℕ,
      (ExtendedMantissa.ofMantissaAndAccuracy 0 .exact >>> n).mantissa = 0 := by
    intro n
    exact Nat.le_zero.mp (by exact_mod_cast (hshifted n).le)
  simp [roundWithAccuracy, shiftToTargetExponent, shiftToExponent, hrounded, hmantissa]

/-- Rounding gives some mantissa and exponent to which the value is rounded. -/
theorem round_eq (sign : Sign) (m : ℕ) (e : ℤ) :
    ∃ k t, RoundsTo (m * 2 ^ e) k t ∧
      UnpackedFloat.round Format.binary64 sign m e = unpacked sign k t := by
  rcases Nat.eq_zero_or_pos m with rfl | hpos
  · refine ⟨0, -1074, ?_, ?_⟩
    · simpa using roundsTo_zero
    · simp [UnpackedFloat.round, decreaseExponent, roundWithAccuracy_zero, unpacked]
  · rw [UnpackedFloat.round, targetExponent_eq, decreaseExponent]
    generalize htop : max ((Nat.log2 m : ℤ) + e - 52) (-1074) = t
    obtain ⟨s, hs⟩ : ∃ s : ℕ, (e - t).toNat = s := ⟨_, rfl⟩
    have hsame : (m : ℚ) * 2 ^ e = (m <<< s : ℕ) * 2 ^ (e - s) := by
      rw [Nat.shiftLeft_eq, Nat.cast_mul, Nat.cast_pow, Nat.cast_ofNat, mul_assoc,
        ← zpow_natCast, ← zpow_add₀ two_ne_zero, add_sub_cancel]
    simp only [hs, hsame]
    apply roundWithAccuracy_exact
    rw [or_iff_not_imp_right]
    intro hlarge
    have hexp : 52 ≤ Nat.log2 m + s := by omega
    calc 2 ^ 52 ≤ 2 ^ (Nat.log2 m + s) := Nat.pow_le_pow_right two_pos hexp
      _ = 2 ^ Nat.log2 m * 2 ^ s := pow_add ..
      _ ≤ m * 2 ^ s := Nat.mul_le_mul_right _ (Nat.log2_self_le hpos.ne')
      _ = m <<< s := (Nat.shiftLeft_eq ..).symm

theorem mul_eq {m₁ m₂ : ℕ} {e₁ e₂ : ℤ} (sign₁ sign₂ : Sign) (hm₁ : 0 < m₁) (hm₂ : 0 < m₂)
    (h : 2 ^ 52 ≤ m₁ * m₂ ∨ e₁ + e₂ ≤ -1074) :
    ∃ k t, RoundsTo (m₁ * 2 ^ e₁ * (m₂ * 2 ^ e₂)) k t ∧
      UnpackedFloat.mul Format.binary64 (.finite sign₁ m₁ e₁ hm₁) (.finite sign₂ m₂ e₂ hm₂) =
        unpacked (sign₁ * sign₂) k t := by
  have hprod : (m₁ : ℚ) * 2 ^ e₁ * (m₂ * 2 ^ e₂) = (m₁ * m₂ : ℕ) * 2 ^ (e₁ + e₂) := by
    rw [zpow_add₀ two_ne_zero]
    push_cast
    ring
  rw [hprod]
  exact roundWithAccuracy_exact _ h

theorem div_eq {m₁ m₂ : ℕ} {e₁ e₂ : ℤ} (sign₁ sign₂ : Sign) (hm₁ : 0 < m₁) (hm₂ : 0 < m₂) :
    ∃ k t, RoundsTo (m₁ * 2 ^ e₁ / (m₂ * 2 ^ e₂)) k t ∧
      UnpackedFloat.div Format.binary64 (.finite sign₁ m₁ e₁ hm₁) (.finite sign₂ m₂ e₂ hm₂) =
        unpacked (sign₁ / sign₂) k t := by
  have htarget : Format.binary64.targetExponent (totalExponent m₁ e₁ - totalExponent m₂ e₂) =
      max ((Nat.log2 m₁ : ℤ) - Nat.log2 m₂ + e₁ - e₂ - 53) (-1074) := by
    have hmin : Format.binary64.minExponent = -1074 := by decide
    have hbits : (Format.binary64.mantissaBits : ℤ) = 53 := by decide
    rw [Format.targetExponent, hmin, hbits, totalExponent, totalExponent]
    congr 1
    omega
  simp only [UnpackedFloat.div, divCore, htarget]
  -- The dividend is lengthened by `s` digits, so that the whole part of the quotient has enough.
  generalize hexp : min (e₁ - e₂) (max ((Nat.log2 m₁ : ℤ) - Nat.log2 m₂ + e₁ - e₂ - 53) (-1074)) = e
  obtain ⟨s, hs⟩ := Int.eq_ofNat_of_zero_le (by omega : 0 ≤ e₁ - e₂ - e)
  rw [hs, Int.toNat_natCast, Nat.shiftLeft_eq]
  have hquot : (m₁ : ℚ) * 2 ^ e₁ / (m₂ * 2 ^ e₂) / 2 ^ e =
      (m₁ * 2 ^ s / m₂ : ℕ) + (m₁ * 2 ^ s % m₂ : ℕ) / m₂ := by
    have hunits : (2 : ℚ) ^ e₁ = 2 ^ s * (2 ^ e₂ * 2 ^ e) := by
      rw [← zpow_natCast, ← zpow_add₀ two_ne_zero, ← zpow_add₀ two_ne_zero]
      congr 1
      omega
    have he₂ := (two_zpow_pos e₂).ne'
    have he := (two_zpow_pos e).ne'
    rw [← cast_div_eq _ hm₂, hunits]
    push_cast
    field_simp
  apply roundWithAccuracy_eq
  · rw [hquot]
    exact represents_fraction _ (Nat.mod_lt _ hm₂)
  · rcases le_or_gt e (-1074) with hsmall | hlarge
    · omega
    · have hexp : 53 + Nat.log2 m₂ ≤ Nat.log2 m₁ + s := by omega
      have hmul : 2 ^ 52 * m₂ ≤ m₁ * 2 ^ s :=
        calc 2 ^ 52 * m₂ ≤ 2 ^ 52 * 2 ^ (Nat.log2 m₂ + 1) :=
              Nat.mul_le_mul_left _ Nat.lt_log2_self.le
          _ = 2 ^ (53 + Nat.log2 m₂) := by rw [← pow_add]; congr 1; omega
          _ ≤ 2 ^ (Nat.log2 m₁ + s) := Nat.pow_le_pow_right two_pos hexp
          _ = 2 ^ Nat.log2 m₁ * 2 ^ s := pow_add ..
          _ ≤ m₁ * 2 ^ s := Nat.mul_le_mul_right _ (Nat.log2_self_le hm₁.ne')
      have hquot := (Nat.le_div_iff_mul_le hm₂).mpr hmul
      have hlog : 52 ≤ Nat.log2 (m₁ * 2 ^ s / m₂) := (Nat.le_log2 (by omega)).mpr hquot
      omega

end DeskCalculator.Number
