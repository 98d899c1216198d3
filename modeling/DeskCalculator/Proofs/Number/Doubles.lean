import DeskCalculator.Number.Double
import DeskCalculator.Proofs.Number.Arithmetic
import DeskCalculator.Proofs.Number.Packing

/-!
Doubles and their exact values. A double is `q` rounded when it packs what rounding makes of `q`:
it is then nearest to `q` among all doubles, the only such double unless `q` is zero, and rounding
keeps the order.
-/
namespace DeskCalculator.Number

open Float.Model Float.Model.UnpackedFloat

/-- The exact value of a double; what is no finite number counts as zero. -/
def Reading.value : Reading → ℚ
  | .finite negative m e => if negative then -(m * 2 ^ e) else m * 2 ^ e
  | _ => 0

def exact (x : Float) : ℚ := (reading x).value

theorem exact_of_reading {x : Float} {r : Reading} (h : reading x = r) : exact x = r.value :=
  congrArg Reading.value h

theorem exact_eq (x : Float) : exact x = unpackedValue x.toModel.unpack := by
  rw [exact, reading]
  rcases x.toModel.unpack with sign | _ | sign | ⟨_ | _, m, e, hm⟩
  · rfl
  · rfl
  · cases sign <;> simp [Reading.value, unpackedValue]
  · rfl
  · rfl

theorem exact_zero : exact 0.0 = 0 := by
  have hreading : reading 0.0 = .finite false 0 0 := by decide +kernel
  rw [exact_of_reading hreading, Reading.value]
  simp

/-- A double is finite when unpacking it gives a number. -/
theorem isFinite_iff (x : Float) : x.isFinite = true ↔ IsFinite x.toModel.unpack := by
  have hfits := fits_unpack x.toModel
  change x.toModel.unpack.isFinite = true ↔ _
  generalize x.toModel.unpack = u at hfits ⊢
  rcases u with sign | _ | sign | ⟨sign, m, e, hm⟩
  · exact ⟨fun h => absurd h Bool.false_ne_true, fun h => nomatch h⟩
  · exact ⟨fun h => absurd h Bool.false_ne_true, fun h => nomatch h⟩
  · exact ⟨fun _ => .zero sign, fun _ => rfl⟩
  · obtain ⟨hc, he⟩ : IsCanonical m e ∧ e ≤ 971 := hfits
    exact ⟨fun _ => .finite sign hm hc he, fun _ => rfl⟩

/-- The magnitude of a finite double is one that a double can keep. -/
theorem exists_canonical {x : Float} (hx : x.isFinite = true) :
    ∃ m e, IsCanonical m e ∧ e ≤ 971 ∧ |exact x| = m * 2 ^ e := by
  have hfinite := (isFinite_iff x).mp hx
  rw [exact_eq]
  generalize x.toModel.unpack = u at hfinite ⊢
  cases hfinite with
  | zero sign =>
    exact ⟨0, -1074, ⟨by norm_num, le_rfl, Or.inl rfl⟩, by norm_num, by simp [unpackedValue]⟩
  | @finite sign m e hm hc he =>
    refine ⟨m, e, hc, he, ?_⟩
    rw [unpackedValue, abs_signed, abs_of_nonneg (by positivity)]

def greatest : ℚ := (2 ^ 53 - 1) * 2 ^ (971 : ℤ)

theorem le_greatest {q : ℚ} (hq : q ≤ 2 ^ 54) : q ≤ greatest := by
  have hpow := two_zpow_le (by norm_num : (2 : ℤ) ≤ 971)
  rw [greatest]
  generalize (2 : ℚ) ^ (971 : ℤ) = top at hpow ⊢
  norm_num at hpow hq ⊢
  linarith

theorem abs_exact_le_greatest {x : Float} (hx : x.isFinite = true) : |exact x| ≤ greatest := by
  obtain ⟨m, e, hc, he, hvalue⟩ := exists_canonical hx
  have hm : (m : ℚ) ≤ 2 ^ 53 - 1 := by
    have : (m : ℚ) + 1 ≤ 2 ^ 53 := by exact_mod_cast hc.mantissa_lt
    linarith
  rw [hvalue, greatest]
  exact mul_le_mul hm (two_zpow_le he) (two_zpow_pos e).le (by norm_num)

def IsRounded (q : ℚ) (x : Float) : Prop := ∃ u, Rounds q u ∧ x = .ofModel (pack u)

theorem unpackedValue_unpacked (sign : Sign) (k : ℕ) (t : ℤ) :
    unpackedValue (unpacked sign k t) = signed sign (k * 2 ^ t) := by
  rw [unpacked]
  split_ifs with hzero hfull
  · simp [hzero, unpackedValue]
  · rw [unpackedValue, hfull, two_zpow_add_one]
    congr 1
    push_cast
    ring
  · rfl

theorem fits_unpacked {q : ℚ} {k : ℕ} {t : ℤ} (h : RoundsTo q k t) (sign : Sign)
    (ht : t ≤ 971) (hk : k = 2 ^ 53 → t < 971) : Fits (unpacked sign k t) := by
  have hle := h.le_two_pow
  have hleast := h.least
  rw [unpacked]
  split_ifs with hzero hfull
  · trivial
  · exact ⟨⟨by norm_num, by omega, Or.inr le_rfl⟩, by have := hk hfull; omega⟩
  · exact ⟨⟨by omega, hleast, h.two_pow_le⟩, ht⟩

/-- A rounded number can be packed, or it is too large and becomes infinite. -/
theorem fits_or_infinite {q : ℚ} {k : ℕ} {t : ℤ} (h : RoundsTo q k t) (sign : Sign) :
    Fits (unpacked sign k t) ∨ (pack (unpacked sign k t)).unpack = .infinity sign := by
  by_cases hrange : t ≤ 971 ∧ (k = 2 ^ 53 → t < 971)
  · exact Or.inl (fits_unpacked h sign hrange.1 hrange.2)
  · right
    have hk := h.two_pow_le
    have hzero : k ≠ 0 := by
      rintro rfl
      omega
    rw [unpacked, dif_neg hzero]
    split_ifs <;> exact unpack_pack_of_large _ (by omega)

namespace IsRounded

variable {q : ℚ} {x : Float}

/-- A finite double is as many units as its number has been rounded to. -/
theorem exact_eq (h : IsRounded q x) (hx : x.isFinite = true) :
    ∃ sign k t, q = signed sign |q| ∧ RoundsTo |q| k t ∧ exact x = signed sign (k * 2 ^ t) := by
  obtain ⟨_, ⟨sign, k, t, hq, hrounds, rfl⟩, rfl⟩ := h
  refine ⟨sign, k, t, hq, hrounds, ?_⟩
  rcases fits_or_infinite hrounds sign with hfits | hinfinite
  · rw [Number.exact_eq, unpack_pack hfits, unpackedValue_unpacked]
  · rw [isFinite_iff, hinfinite] at hx
    exact nomatch hx

theorem isFinite (h : IsRounded q x) (hq : |q| ≤ greatest) : x.isFinite = true := by
  obtain ⟨_, ⟨sign, k, t, _, hrounds, rfl⟩, rfl⟩ := h
  obtain ⟨ht, hk⟩ := hrounds.exponent_le (by norm_num) hq
  have hfits := fits_unpacked hrounds sign ht hk
  change (pack (unpacked sign k t)).unpack.isFinite = true
  rw [unpack_pack hfits, unpacked]
  split_ifs <;> rfl

/-- Apart from zeros, a number is rounded to one double only. -/
theorem unique {y : Float} (hx : IsRounded q x) (hy : IsRounded q y) (hq : q ≠ 0) : x = y := by
  obtain ⟨_, ⟨sign, k, t, hsign, hrounds, rfl⟩, rfl⟩ := hx
  obtain ⟨_, ⟨sign', k', t', hsign', hrounds', rfl⟩, rfl⟩ := hy
  obtain ⟨rfl, rfl⟩ := hrounds.unique hrounds'
  have hsame : sign = sign' := by
    cases sign <;> cases sign' <;> try rfl
    all_goals
      simp only [signed] at hsign hsign'
      exact absurd (by linarith) hq
  rw [hsame]

/-- No finite double is nearer. -/
theorem abs_sub_le (h : IsRounded q x) (hx : x.isFinite = true) {y : Float}
    (hy : y.isFinite = true) : |exact x - q| ≤ |exact y - q| := by
  obtain ⟨sign, k, t, hsign, hrounds, hvalue⟩ := h.exact_eq hx
  obtain ⟨m, e, hc, -, hother⟩ := exists_canonical hy
  have hnear : |exact x - q| = |k * 2 ^ t - abs q| := by
    rw [hvalue]
    conv_lhs => rw [hsign]
    cases sign
    · rw [signed, signed, neg_sub_neg, abs_sub_comm]
    · rfl
  calc |exact x - q| = |k * 2 ^ t - abs q| := hnear
    _ ≤ |m * 2 ^ e - abs q| := hrounds.abs_sub_le hc
    _ = |abs (exact y) - abs q| := by rw [hother]
    _ ≤ |exact y - q| := abs_abs_sub_abs_le_abs_sub _ _

/-- A number that a double has as its value is rounded to that value. -/
theorem exact_of_double (h : IsRounded q x) {y : Float} (hy : y.isFinite = true)
    (hq : exact y = q) : x.isFinite = true ∧ exact x = q := by
  have hx := h.isFinite (hq ▸ abs_exact_le_greatest hy)
  have hnear := h.abs_sub_le hx hy
  rw [hq, sub_self, abs_zero] at hnear
  exact ⟨hx, sub_eq_zero.mp (abs_nonpos_iff.mp hnear)⟩

theorem exact_of_zero (h : IsRounded 0 x) (hx : x.isFinite = true) : exact x = 0 := by
  obtain ⟨sign, k, t, -, hrounds, hvalue⟩ := h.exact_eq hx
  rw [abs_zero] at hrounds
  rw [hvalue, (hrounds.unique roundsTo_zero).1, Nat.cast_zero, zero_mul, signed_zero]

theorem nonneg (h : IsRounded q x) (hx : x.isFinite = true) (hq : 0 ≤ q) : 0 ≤ exact x := by
  obtain ⟨sign, k, t, hsign, -, hvalue⟩ := h.exact_eq hx
  cases sign with
  | positive =>
    rw [hvalue, signed]
    positivity
  | negative =>
    have habs := abs_nonneg q
    obtain rfl : q = 0 := le_antisymm (by rw [hsign, signed]; linarith) hq
    exact (h.exact_of_zero hx).ge

/-- Rounding keeps the order. -/
theorem mono (h : IsRounded q x) (hx : x.isFinite = true) {q' : ℚ} {x' : Float}
    (h' : IsRounded q' x') (hx' : x'.isFinite = true) (hle : q ≤ q') : exact x ≤ exact x' := by
  by_contra hlt
  rw [not_le] at hlt
  -- Both numbers would lie half way between the two doubles.
  have hnear := sq_le_sq.mpr (h.abs_sub_le hx hx')
  have hnear' := sq_le_sq.mpr (h'.abs_sub_le hx' hx)
  have hlower : exact x + exact x' ≤ 2 * q := by nlinarith
  have hupper : 2 * q' ≤ exact x + exact x' := by nlinarith
  obtain rfl : q = q' := by linarith
  have hzero : q = 0 := by
    by_contra hne
    rw [h.unique h' hne] at hlt
    exact lt_irrefl _ hlt
  subst hzero
  rw [h.exact_of_zero hx, h'.exact_of_zero hx'] at hlt
  exact lt_irrefl _ hlt

end IsRounded

/-- A finite double is its own value, rounded. -/
theorem isRounded_exact {x : Float} (hx : x.isFinite = true) : IsRounded (exact x) x := by
  refine ⟨x.toModel.unpack, ?_, ?_⟩
  · rw [exact_eq]
    exact ((isFinite_iff x).mp hx).rounds
  · rw [pack_unpack]

theorem eq_of_exact_eq {x y : Float} (hx : x.isFinite = true) (hy : y.isFinite = true)
    (h : exact x = exact y) (hne : exact x ≠ 0) : x = y :=
  (isRounded_exact hx).unique (h ▸ isRounded_exact hy) hne

/-- A magnitude with a larger exponent is larger, and one with the same exponent is compared by its
mantissa. -/
theorem compare_canonical {m₁ m₂ : ℕ} {e₁ e₂ : ℤ} (h₁ : IsCanonical m₁ e₁)
    (h₂ : IsCanonical m₂ e₂) :
    (compare e₁ e₂).then (compare m₁ m₂) = compare ((m₁ : ℚ) * 2 ^ e₁) (m₂ * 2 ^ e₂) := by
  have hlt : ∀ {m₁ m₂ : ℕ} {e₁ e₂ : ℤ}, IsCanonical m₁ e₁ → IsCanonical m₂ e₂ → e₁ < e₂ →
      (m₁ : ℚ) * 2 ^ e₁ < m₂ * 2 ^ e₂ := by
    intro m₁ m₂ e₁ e₂ h₁ h₂ he
    have hfull := h₂.full.resolve_left (by have := h₁.least; omega)
    have hm₁ : (m₁ : ℚ) < 2 ^ 53 := by exact_mod_cast h₁.mantissa_lt
    have hm₂ : (2 : ℚ) ^ 52 ≤ m₂ := by exact_mod_cast hfull
    have hstep := two_zpow_le (by omega : e₁ + 1 ≤ e₂)
    rw [two_zpow_add_one] at hstep
    calc (m₁ : ℚ) * 2 ^ e₁ < 2 ^ 53 * 2 ^ e₁ := mul_lt_mul_of_pos_right hm₁ (two_zpow_pos e₁)
      _ = 2 ^ 52 * (2 * 2 ^ e₁) := by ring
      _ ≤ m₂ * 2 ^ e₂ := mul_le_mul hm₂ hstep (by positivity) (by positivity)
  rcases lt_trichotomy e₁ e₂ with he | rfl | he
  · rw [compare_lt_iff_lt.mpr he, compare_lt_iff_lt.mpr (hlt h₁ h₂ he)]
    rfl
  · have hpos := two_zpow_pos e₁
    rw [compare_eq_iff_eq.mpr rfl]
    rcases lt_trichotomy m₁ m₂ with hm | rfl | hm
    · have hcast : (m₁ : ℚ) < m₂ := by exact_mod_cast hm
      rw [compare_lt_iff_lt.mpr hm, compare_lt_iff_lt.mpr (mul_lt_mul_of_pos_right hcast hpos)]
      rfl
    · rw [compare_eq_iff_eq.mpr rfl, compare_eq_iff_eq.mpr rfl]
      rfl
    · have hcast : (m₂ : ℚ) < m₁ := by exact_mod_cast hm
      rw [compare_gt_iff_gt.mpr hm, compare_gt_iff_gt.mpr (mul_lt_mul_of_pos_right hcast hpos)]
      rfl
  · rw [compare_gt_iff_gt.mpr he, compare_gt_iff_gt.mpr (hlt h₂ h₁ he)]
    rfl

private theorem compare_neg_neg (a b : ℚ) : compare (-a) (-b) = (compare a b).swap := by
  rcases hcmp : compare a b with _ | _ | _
  · exact compare_gt_iff_gt.mpr (neg_lt_neg (compare_lt_iff_lt.mp hcmp))
  · rw [compare_eq_iff_eq.mp hcmp]
    exact compare_eq_iff_eq.mpr rfl
  · exact compare_lt_iff_lt.mpr (neg_lt_neg (compare_gt_iff_gt.mp hcmp))

/-- Finite doubles are compared by their exact values. -/
theorem compare_unpacked {u v : UnpackedFloat} (hu : IsFinite u) (hv : IsFinite v) :
    UnpackedFloat.compare u v = some (compare (unpackedValue u) (unpackedValue v)) := by
  have hlt : ∀ {a b : ℚ}, a < b → some Ordering.lt = some (compare a b) :=
    fun h => congrArg some (compare_lt_iff_lt.mpr h).symm
  have hgt : ∀ {a b : ℚ}, b < a → some Ordering.gt = some (compare a b) :=
    fun h => congrArg some (compare_gt_iff_gt.mpr h).symm
  rcases hu with sign₁ | @⟨sign₁, m₁, e₁, hm₁, hc₁, -⟩
  · rcases hv with sign₂ | @⟨sign₂, m₂, e₂, hm₂, -, -⟩
    · simp [UnpackedFloat.compare, unpackedValue]
    · have hpos : (0 : ℚ) < m₂ * 2 ^ e₂ := by positivity
      cases sign₂
      · exact hgt (neg_neg_of_pos hpos)
      · exact hlt hpos
  · have hpos₁ : (0 : ℚ) < m₁ * 2 ^ e₁ := by positivity
    rcases hv with sign₂ | @⟨sign₂, m₂, e₂, hm₂, hc₂, -⟩
    · cases sign₁
      · exact hlt (neg_neg_of_pos hpos₁)
      · exact hgt hpos₁
    · have hpos₂ : (0 : ℚ) < m₂ * 2 ^ e₂ := by positivity
      have hcompare := compare_canonical hc₁ hc₂
      cases sign₁ <;> cases sign₂
      · simp only [UnpackedFloat.compare, unpackedValue, signed, hcompare, compare_neg_neg]
      · exact hlt ((neg_neg_of_pos hpos₁).trans hpos₂)
      · exact hgt ((neg_neg_of_pos hpos₂).trans hpos₁)
      · exact congrArg some hcompare

theorem compare_of_not_isFinite {u v : UnpackedFloat} (hu : u.isFinite = false)
    (hv : IsFinite v) : UnpackedFloat.compare u v ≠ some .eq := by
  rcases u with sign | _ | _ | _
  · rcases hv with _ | _ <;> cases sign <;> simp [UnpackedFloat.compare]
  · simp [UnpackedFloat.compare]
  · exact nomatch hu
  · exact nomatch hu

theorem lt_iff {x y : Float} (hx : x.isFinite = true) (hy : y.isFinite = true) :
    x < y ↔ exact x < exact y := by
  have hlt : x < y ↔ UnpackedFloat.lt x.toModel.unpack y.toModel.unpack = true :=
    decide_eq_true_iff
  rw [hlt, UnpackedFloat.lt, compare_unpacked ((isFinite_iff x).mp hx) ((isFinite_iff y).mp hy),
    exact_eq, exact_eq, ← compare_lt_iff_lt]
  simp

theorem le_iff {x y : Float} (hx : x.isFinite = true) (hy : y.isFinite = true) :
    x ≤ y ↔ exact x ≤ exact y := by
  have hle : x ≤ y ↔ UnpackedFloat.le x.toModel.unpack y.toModel.unpack = true :=
    decide_eq_true_iff
  rw [hle, UnpackedFloat.le, compare_unpacked ((isFinite_iff x).mp hx) ((isFinite_iff y).mp hy),
    exact_eq, exact_eq, ← compare_le_iff_le]
  simp [Ordering.isLE_iff_ne_gt]

/-- Only a finite double compares as equal to a finite one, and then both have the same value. -/
theorem beq_iff {x y : Float} (hy : y.isFinite = true) :
    (x == y) = true ↔ x.isFinite = true ∧ exact x = exact y := by
  have hbeq : (x == y) = true ↔
      UnpackedFloat.compare x.toModel.unpack y.toModel.unpack = some .eq := by
    change (UnpackedFloat.compare _ _ == some .eq) = true ↔ _
    exact beq_iff_eq
  have hmodel := (isFinite_iff y).mp hy
  rw [hbeq]
  by_cases hx : x.isFinite = true
  · rw [compare_unpacked ((isFinite_iff x).mp hx) hmodel, ← exact_eq, ← exact_eq,
      Option.some.injEq, compare_eq_iff_eq]
    exact ⟨fun h => ⟨hx, h⟩, fun h => h.2⟩
  · have hne := compare_of_not_isFinite (Bool.eq_false_iff.mpr hx) hmodel
    exact ⟨fun h => absurd h hne, fun h => absurd h.1 hx⟩

section Operations

variable {x y : Float}

theorem isRounded_add (hx : x.isFinite = true) (hy : y.isFinite = true) :
    IsRounded (exact x + exact y) (x + y) := by
  refine ⟨_, ?_, rfl⟩
  rw [exact_eq, exact_eq]
  exact rounds_add ((isFinite_iff x).mp hx) ((isFinite_iff y).mp hy)

theorem isRounded_sub (hx : x.isFinite = true) (hy : y.isFinite = true) :
    IsRounded (exact x - exact y) (x - y) := by
  have hsub : x - y =
      .ofModel (pack (UnpackedFloat.add Format.binary64 x.toModel.unpack y.toModel.unpack.neg)) :=
    congrArg (fun u => Float.ofModel (pack u)) (sub_eq_add_neg_unpacked _ _)
  refine ⟨_, ?_, hsub⟩
  rw [exact_eq, exact_eq, sub_eq_add_neg, ← unpackedValue_neg]
  exact rounds_add ((isFinite_iff x).mp hx) ((isFinite_iff y).mp hy).neg

theorem add_zero_of_exact_eq_zero (hx : x.isFinite = true) (hzero : exact x = 0) :
    x + 0.0 = ofNat 0 := by
  rw [exact_eq] at hzero
  have hpositive : (0.0 : Float).toModel.unpack = .zero .positive := rfl
  have hsum := ((isFinite_iff x).mp hx).add_zero_of_value_eq_zero hzero
  rw [← hpositive] at hsum
  exact congrArg (fun u => Float.ofModel (pack u)) hsum

/-- Nothing is left of a finite double, not even a sign, when it is taken away from itself. -/
theorem sub_self_eq_zero (hx : x.isFinite = true) : x - x = ofNat 0 :=
  congrArg (fun u => Float.ofModel (pack u)) ((isFinite_iff x).mp hx).sub_self

theorem isRounded_mul (hx : x.isFinite = true) (hy : y.isFinite = true) :
    IsRounded (exact x * exact y) (x * y) := by
  refine ⟨_, ?_, rfl⟩
  rw [exact_eq, exact_eq]
  exact rounds_mul ((isFinite_iff x).mp hx) ((isFinite_iff y).mp hy)

theorem isRounded_div (hx : x.isFinite = true) (hy : y.isFinite = true) (hne : exact y ≠ 0) :
    IsRounded (exact x / exact y) (x / y) := by
  refine ⟨_, ?_, rfl⟩
  rw [exact_eq] at hne
  rw [exact_eq, exact_eq]
  exact rounds_div ((isFinite_iff x).mp hx) ((isFinite_iff y).mp hy) hne

theorem fits_neg {u : UnpackedFloat} : Fits u.neg ↔ Fits u := by
  rcases u with _ | _ | _ | _ <;> exact Iff.rfl

theorem unpack_neg (x : Float) : (-x).toModel.unpack = x.toModel.unpack.neg :=
  unpack_pack (fits_neg.mpr (fits_unpack x.toModel))

theorem unpack_abs (x : Float) : x.abs.toModel.unpack = x.toModel.unpack.abs := by
  have hfits := fits_unpack x.toModel
  refine unpack_pack ?_
  rcases hu : x.toModel.unpack with _ | _ | _ | ⟨sign, m, e, hm⟩
  all_goals
    rw [hu] at hfits
    exact hfits

theorem exact_neg (x : Float) : exact (-x) = -exact x := by
  rw [exact_eq, exact_eq, unpack_neg, unpackedValue_neg]

theorem exact_abs (x : Float) : exact x.abs = |exact x| := by
  rw [exact_eq, exact_eq, unpack_abs]
  rcases x.toModel.unpack with _ | _ | _ | ⟨sign, m, e, hm⟩
  · exact abs_zero.symm
  · exact abs_zero.symm
  · exact abs_zero.symm
  · rw [unpackedValue, abs_signed, abs_of_nonneg (by positivity)]
    rfl

theorem reading_abs {negative : Bool} {m : ℕ} {e : ℤ} (h : reading x = .finite negative m e) :
    reading x.abs = .finite false m e := by
  rw [reading] at h
  rw [reading, unpack_abs]
  generalize x.toModel.unpack = u at h ⊢
  rcases u with _ | _ | _ | _
  · exact nomatch h
  · exact nomatch h
  · obtain ⟨-, rfl, rfl⟩ := Reading.finite.inj h
    rfl
  · obtain ⟨-, rfl, rfl⟩ := Reading.finite.inj h
    rfl

@[simp] theorem isFinite_neg (x : Float) : (-x).isFinite = x.isFinite := by
  change (-x).toModel.unpack.isFinite = x.toModel.unpack.isFinite
  rw [unpack_neg]
  rcases x.toModel.unpack with _ | _ | _ | _ <;> rfl

@[simp] theorem isFinite_abs (x : Float) : x.abs.isFinite = x.isFinite := by
  change x.abs.toModel.unpack.isFinite = x.toModel.unpack.isFinite
  rw [unpack_abs]
  rcases x.toModel.unpack with _ | _ | _ | _ <;> rfl

/-- What is not kept is infinite on both sides of zero. -/
theorem IsRounded.neg {q : ℚ} (h : IsRounded q x) : IsRounded (-q) (-x) := by
  obtain ⟨_, ⟨sign, k, t, hsign, hrounds, rfl⟩, rfl⟩ := h
  have hneg : (unpacked sign k t).neg = unpacked (-sign) k t := by
    rw [unpacked, unpacked]
    split_ifs <;> rfl
  refine ⟨unpacked (-sign) k t, ⟨-sign, k, t, ?_, ?_, rfl⟩, ?_⟩
  · rw [abs_neg, signed_neg, ← hsign]
  · rwa [abs_neg]
  · change Float.ofModel (pack (pack (unpacked sign k t)).unpack.neg) = _
    by_cases hfits : Fits (unpacked sign k t)
    · rw [unpack_pack hfits, hneg]
    · have hfits' : ¬Fits (unpacked (-sign) k t) := by rwa [← hneg, fits_neg]
      have hinfinite := (fits_or_infinite hrounds sign).resolve_left hfits
      have hinfinite' := (fits_or_infinite hrounds (-sign)).resolve_left hfits'
      have hsame : (Float.Model.UnpackedFloat.infinity sign).neg = .infinity (-sign) := rfl
      rw [hinfinite, hsame, ← hinfinite', pack_unpack]

theorem isFinite_of_pack {u : UnpackedFloat} (h : (pack u).unpack.isFinite = true) :
    u.isFinite = true := by
  rcases u with sign | _ | sign | ⟨sign, m, e, hm⟩
  · have hfits : Fits (.infinity sign) := trivial
    rwa [unpack_pack hfits] at h
  · have hfits : Fits .notANumber := trivial
    rwa [unpack_pack hfits] at h
  · rfl
  · rfl

theorem isFinite_of_add (h : (x + y).isFinite = true) :
    x.isFinite = true ∧ y.isFinite = true :=
  isFinite_of_add_unpacked (isFinite_of_pack h)

theorem isFinite_of_mul (h : (x * y).isFinite = true) :
    x.isFinite = true ∧ y.isFinite = true :=
  isFinite_of_mul_unpacked (isFinite_of_pack h)

theorem isFinite_of_div (h : (x / y).isFinite = true) :
    x.isFinite = true ∧ (y.isFinite = true ∧ exact y ≠ 0 ∨ exact (x / y) = 0) := by
  obtain ⟨hx, hy⟩ := isFinite_of_div_unpacked (isFinite_of_pack h)
  refine ⟨hx, hy.imp ?_ ?_⟩
  · rintro ⟨hfinite, hne⟩
    exact ⟨hfinite, by rwa [exact_eq]⟩
  · rintro ⟨sign, hzero⟩
    have hfits : Fits (.zero sign) := trivial
    have hmodel : (x / y).toModel = pack (.zero sign) := congrArg pack hzero
    rw [exact_eq, hmodel, unpack_pack hfits]
    rfl

end Operations

end DeskCalculator.Number
