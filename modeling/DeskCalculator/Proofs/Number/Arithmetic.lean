import DeskCalculator.Proofs.Number.Rounding

/-!
Arithmetic on unpacked doubles. Sums, differences, products and quotients of finite values are the
exact ones, rounded.
-/
namespace DeskCalculator.Number

open Float.Model Float.Model.UnpackedFloat

def signed : (sign : Sign) → (magnitude : ℚ) → ℚ
  | .negative, q => -q
  | .positive, q => q

theorem signed_apply (sign : Sign) (n : ℤ) : ((sign.apply n : ℤ) : ℚ) = signed sign n := by
  cases sign
  · exact Int.cast_neg n
  · rfl

@[simp] theorem abs_signed (sign : Sign) (q : ℚ) : |signed sign q| = |q| := by
  cases sign
  · exact abs_neg q
  · rfl

@[simp] theorem signed_zero (sign : Sign) : signed sign 0 = 0 := by
  cases sign
  · exact neg_zero
  · rfl

theorem signed_neg (sign : Sign) (q : ℚ) : signed (-sign) q = -signed sign q := by
  cases sign
  · exact (neg_neg q).symm
  · rfl

theorem signed_mul (sign₁ sign₂ : Sign) (q₁ q₂ : ℚ) :
    signed (sign₁ * sign₂) (q₁ * q₂) = signed sign₁ q₁ * signed sign₂ q₂ := by
  cases sign₁ <;> cases sign₂
  · exact (neg_mul_neg q₁ q₂).symm
  · exact (neg_mul q₁ q₂).symm
  · exact (mul_neg q₁ q₂).symm
  · rfl

theorem signed_div (sign₁ sign₂ : Sign) (q₁ q₂ : ℚ) :
    signed (sign₁ / sign₂) (q₁ / q₂) = signed sign₁ q₁ / signed sign₂ q₂ := by
  cases sign₁ <;> cases sign₂
  · exact (neg_div_neg_eq q₁ q₂).symm
  · exact (neg_div q₂ q₁).symm
  · exact (div_neg q₁).symm
  · rfl

/-- The exact value of an unpacked double; what is not finite counts as zero. -/
def unpackedValue : UnpackedFloat → ℚ
  | .finite sign m e _ => signed sign (m * 2 ^ e)
  | _ => 0

/-- The number `q` rounded, before it is checked against the range of doubles. -/
def Rounds (q : ℚ) (u : UnpackedFloat) : Prop :=
  ∃ sign k t, q = signed sign |q| ∧ RoundsTo |q| k t ∧ u = unpacked sign k t

theorem rounds_signed (sign : Sign) {q : ℚ} (hq : 0 ≤ q) {u : UnpackedFloat}
    (h : ∃ k t, RoundsTo q k t ∧ u = unpacked sign k t) : Rounds (signed sign q) u := by
  obtain ⟨k, t, hrounds, hu⟩ := h
  refine ⟨sign, k, t, ?_, ?_, hu⟩
  · rw [abs_signed, abs_of_nonneg hq]
  · rwa [abs_signed, abs_of_nonneg hq]

inductive IsFinite : UnpackedFloat → Prop
  | zero (sign : Sign) : IsFinite (.zero sign)
  | finite (sign : Sign) {m : ℕ} {e : ℤ} (hm : 0 < m) (hc : IsCanonical m e) (he : e ≤ 971) :
      IsFinite (.finite sign m e hm)

theorem rounds_zero (sign : Sign) : Rounds 0 (.zero sign) := by
  have hrounds := rounds_signed sign le_rfl ⟨0, -1074, roundsTo_zero, rfl⟩
  rw [signed_zero] at hrounds
  exact hrounds

theorem IsFinite.rounds {u : UnpackedFloat} (h : IsFinite u) : Rounds (unpackedValue u) u := by
  cases h with
  | zero sign => exact rounds_zero sign
  | finite sign hm hc _ =>
    refine rounds_signed sign (by positivity) ⟨_, _, hc.roundsTo, ?_⟩
    have hlt := hc.mantissa_lt
    rw [unpacked, dif_neg hm.ne', if_neg (by omega)]

theorem IsFinite.neg {u : UnpackedFloat} (h : IsFinite u) : IsFinite u.neg := by
  cases h with
  | zero sign => exact .zero _
  | finite sign hm hc he => exact .finite _ hm hc he

theorem unpackedValue_neg (u : UnpackedFloat) : unpackedValue u.neg = -unpackedValue u := by
  rcases u with _ | _ | _ | ⟨sign, m, e, hm⟩
  · exact neg_zero.symm
  · exact neg_zero.symm
  · exact neg_zero.symm
  · exact signed_neg sign _

theorem rounds_round (sign : Sign) (m : ℕ) (e : ℤ) :
    Rounds (signed sign (m * 2 ^ e)) (UnpackedFloat.round Format.binary64 sign m e) :=
  rounds_signed sign (by positivity) (round_eq sign m e)

theorem rounds_normalize (n : ℤ) (e : ℤ) (sign : Sign) :
    Rounds (n * 2 ^ e) (UnpackedFloat.normalize Format.binary64 n e sign) := by
  rw [UnpackedFloat.normalize]
  rcases hcmp : compare n 0 with _ | _ | _
  · have hneg := compare_lt_iff_lt.mp hcmp
    have hcast : (n : ℚ) * 2 ^ e = signed .negative ((-n).toNat * 2 ^ e) := by
      have : ((-n).toNat : ℚ) = -n := by exact_mod_cast Int.toNat_of_nonneg (by omega)
      rw [this, signed]
      ring
    rw [hcast]
    exact rounds_round _ _ _
  · obtain rfl := compare_eq_iff_eq.mp hcmp
    rw [Int.cast_zero, zero_mul]
    exact rounds_zero sign
  · have hpos := compare_gt_iff_gt.mp hcmp
    have hcast : (n : ℚ) * 2 ^ e = signed .positive (n.toNat * 2 ^ e) := by
      have : (n.toNat : ℚ) = n := by exact_mod_cast Int.toNat_of_nonneg (by omega)
      rw [this, signed]
    rw [hcast]
    exact rounds_round _ _ _

theorem decreaseExponent_value (m : ℕ) {e t : ℤ} (h : t ≤ e) :
    ((decreaseExponent m e t).1 : ℚ) * 2 ^ t = m * 2 ^ e := by
  obtain ⟨s, hs⟩ := Int.eq_ofNat_of_zero_le (Int.sub_nonneg_of_le h)
  rw [decreaseExponent, hs, Int.toNat_natCast, Nat.shiftLeft_eq, Nat.cast_mul, Nat.cast_pow,
    Nat.cast_ofNat, mul_assoc, ← zpow_natCast, ← zpow_add₀ two_ne_zero, ← hs, sub_add_cancel]

/-- A sum is the exact sum rounded. -/
theorem rounds_add {u v : UnpackedFloat} (hu : IsFinite u) (hv : IsFinite v) :
    Rounds (unpackedValue u + unpackedValue v) (UnpackedFloat.add Format.binary64 u v) := by
  cases hu with
  | zero sign₁ =>
    cases hv with
    | zero sign₂ =>
      rw [UnpackedFloat.add]
      simp only [unpackedValue, add_zero]
      split_ifs <;> exact rounds_zero _
    | finite sign₂ hm hc he =>
      simp only [unpackedValue, zero_add]
      exact (IsFinite.finite sign₂ hm hc he).rounds
  | finite sign₁ hm₁ hc₁ he₁ =>
    cases hv with
    | zero sign₂ =>
      simp only [unpackedValue, add_zero]
      exact (IsFinite.finite sign₁ hm₁ hc₁ he₁).rounds
    | @finite sign₂ m₂ e₂ hm₂ hc₂ he₂ =>
      rename_i m₁ e₁
      have hleft := decreaseExponent_value m₁ (min_le_left e₁ e₂)
      have hright := decreaseExponent_value m₂ (min_le_right e₁ e₂)
      have hsum := rounds_normalize
        (sign₁.apply (decreaseExponent m₁ e₁ (min e₁ e₂)).1 +
          sign₂.apply (decreaseExponent m₂ e₂ (min e₁ e₂)).1) (min e₁ e₂) .positive
      have hvalue : signed sign₁ (m₁ * 2 ^ e₁) + signed sign₂ (m₂ * 2 ^ e₂) =
          ((sign₁.apply (decreaseExponent m₁ e₁ (min e₁ e₂)).1 +
            sign₂.apply (decreaseExponent m₂ e₂ (min e₁ e₂)).1 : ℤ) : ℚ) * 2 ^ min e₁ e₂ := by
        rw [Int.cast_add, signed_apply, signed_apply, ← hleft, ← hright]
        cases sign₁ <;> cases sign₂ <;> simp only [signed, Int.cast_natCast] <;> ring
      simp only [unpackedValue, hvalue]
      exact hsum

theorem sub_eq_add_neg_unpacked (u v : UnpackedFloat) :
    UnpackedFloat.sub Format.binary64 u v = UnpackedFloat.add Format.binary64 u v.neg := by
  have happly : ∀ (sign : Sign) (n : ℤ), (-sign).apply n = -sign.apply n := by
    intro sign n
    cases sign
    · exact (neg_neg n).symm
    · rfl
  rcases u with sign₁ | _ | sign₁ | ⟨sign₁, m₁, e₁, hm₁⟩ <;>
    rcases v with sign₂ | _ | sign₂ | ⟨sign₂, m₂, e₂, hm₂⟩ <;>
    simp only [UnpackedFloat.sub, UnpackedFloat.add, UnpackedFloat.neg, happly, sub_eq_add_neg]

theorem IsFinite.sub_self {u : UnpackedFloat} (h : IsFinite u) :
    UnpackedFloat.sub Format.binary64 u u = .zero .positive := by
  cases h with
  | zero sign => cases sign <;> rfl
  | finite sign hm hc he =>
    simp only [UnpackedFloat.sub, Int.sub_self, UnpackedFloat.normalize]
    rfl

/-- Of the two zeros, adding the positive one gives the positive one. -/
theorem IsFinite.add_zero_of_value_eq_zero {u : UnpackedFloat} (h : IsFinite u)
    (hzero : unpackedValue u = 0) :
    UnpackedFloat.add Format.binary64 u (.zero .positive) = .zero .positive := by
  cases h with
  | zero sign => cases sign <;> rfl
  | @finite sign m e hm hc he =>
    have hpos : (0 : ℚ) < m * 2 ^ e := by positivity
    have habs := abs_signed sign (m * 2 ^ e)
    rw [abs_of_pos hpos] at habs
    change signed sign (m * 2 ^ e) = 0 at hzero
    rw [hzero, abs_zero] at habs
    exact absurd habs hpos.ne

/-- A product is the exact product rounded. -/
theorem rounds_mul {u v : UnpackedFloat} (hu : IsFinite u) (hv : IsFinite v) :
    Rounds (unpackedValue u * unpackedValue v) (UnpackedFloat.mul Format.binary64 u v) := by
  cases hu with
  | zero sign₁ =>
    cases hv <;> simp only [unpackedValue, zero_mul] <;> exact rounds_zero _
  | finite sign₁ hm₁ hc₁ _ =>
    cases hv with
    | zero sign₂ =>
      simp only [unpackedValue, mul_zero]
      exact rounds_zero _
    | finite sign₂ hm₂ hc₂ _ =>
      simp only [unpackedValue, ← signed_mul]
      refine rounds_signed _ (by positivity) (mul_eq sign₁ sign₂ hm₁ hm₂ ?_)
      rcases hc₁.full with hleast₁ | hfull₁
      · rcases hc₂.full with hleast₂ | hfull₂
        · omega
        · exact Or.inl (hfull₂.trans (Nat.le_mul_of_pos_left _ hm₁))
      · exact Or.inl (hfull₁.trans (Nat.le_mul_of_pos_right _ hm₂))

/-- A quotient is the exact quotient rounded. -/
theorem rounds_div {u v : UnpackedFloat} (hu : IsFinite u) (hv : IsFinite v)
    (hne : unpackedValue v ≠ 0) :
    Rounds (unpackedValue u / unpackedValue v) (UnpackedFloat.div Format.binary64 u v) := by
  cases hv with
  | zero sign₂ => exact absurd rfl hne
  | finite sign₂ hm₂ hc₂ _ =>
    cases hu with
    | zero sign₁ =>
      simp only [unpackedValue, zero_div]
      exact rounds_zero _
    | finite sign₁ hm₁ hc₁ _ =>
      simp only [unpackedValue, ← signed_div]
      exact rounds_signed _ (by positivity) (div_eq sign₁ sign₂ hm₁ hm₂)

/-! Infinities and what is no number spoil every sum and product they enter, and every quotient but
one with an infinite divisor. -/

theorem isFinite_of_add_unpacked {u v : UnpackedFloat}
    (h : (UnpackedFloat.add Format.binary64 u v).isFinite = true) :
    u.isFinite = true ∧ v.isFinite = true := by
  rcases u with sign₁ | _ | _ | _ <;> rcases v with sign₂ | _ | _ | _
  · cases sign₁ <;> cases sign₂ <;> exact absurd h Bool.false_ne_true
  all_goals first | exact ⟨rfl, rfl⟩ | exact absurd h Bool.false_ne_true

theorem isFinite_of_mul_unpacked {u v : UnpackedFloat}
    (h : (UnpackedFloat.mul Format.binary64 u v).isFinite = true) :
    u.isFinite = true ∧ v.isFinite = true := by
  rcases u with _ | _ | _ | _ <;> rcases v with _ | _ | _ | _ <;>
    first | exact ⟨rfl, rfl⟩ | exact absurd h Bool.false_ne_true

/-- A finite quotient has finite parts, or is the zero that an infinite divisor leaves. -/
theorem isFinite_of_div_unpacked {u v : UnpackedFloat}
    (h : (UnpackedFloat.div Format.binary64 u v).isFinite = true) :
    u.isFinite = true ∧ (v.isFinite = true ∧ unpackedValue v ≠ 0 ∨
      ∃ sign, UnpackedFloat.div Format.binary64 u v = .zero sign) := by
  have hne : ∀ {sign : Sign} {m : ℕ} {e : ℤ}, 0 < m → signed sign ((m : ℚ) * 2 ^ e) ≠ 0 := by
    intro sign m e hm
    have hvalue : (m : ℚ) * 2 ^ e ≠ 0 := by positivity
    cases sign
    · exact neg_ne_zero.mpr hvalue
    · exact hvalue
  rcases u with _ | _ | _ | _ <;> rcases v with _ | _ | _ | ⟨sign, m, e, hm⟩ <;>
    first
      | exact absurd h Bool.false_ne_true
      | exact ⟨rfl, Or.inl ⟨rfl, hne hm⟩⟩
      | exact ⟨rfl, Or.inr ⟨_, rfl⟩⟩

end DeskCalculator.Number
