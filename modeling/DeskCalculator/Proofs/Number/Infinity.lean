import DeskCalculator.Proofs.Number.Whole

/-!
Doubles up to the infinite one. Above all finite doubles stands an infinity, which a product that is
too large becomes and which it remains. A double that is at least some number may be infinite; so
bounds pass through products and comparisons without a case for what is not finite.
-/
namespace DeskCalculator.Number

open Float.Model Float.Model.UnpackedFloat

def infinity : Float := .ofModel (pack (.infinity .positive))

theorem unpack_infinity : infinity.toModel.unpack = .infinity .positive := by
  have hfits : Fits (.infinity .positive) := trivial
  exact unpack_pack hfits

theorem eq_infinity_of_unpack {x : Float} (h : x.toModel.unpack = .infinity .positive) :
    x = infinity := by
  have hpack := congrArg (fun u => Float.ofModel (pack u)) h
  rw [pack_unpack] at hpack
  exact hpack

theorem isFinite_infinity : infinity.isFinite = false := by
  change infinity.toModel.unpack.isFinite = false
  rw [unpack_infinity]
  rfl

/-- A positive number is rounded to a finite double unless it is too large. -/
theorem IsRounded.isFinite_or_eq_infinity {q : ℚ} {x : Float} (h : IsRounded q x) (hq : 0 < q) :
    x.isFinite = true ∨ x = infinity := by
  obtain ⟨_, ⟨sign, k, t, hsign, hrounds, rfl⟩, rfl⟩ := h
  cases sign with
  | negative =>
    rw [abs_of_pos hq, signed] at hsign
    linarith
  | positive =>
    rcases fits_or_infinite hrounds .positive with hfits | hinfinite
    · left
      change (pack (unpacked .positive k t)).unpack.isFinite = true
      rw [unpack_pack hfits, unpacked]
      split_ifs <;> rfl
    · exact .inr (eq_infinity_of_unpack hinfinite)

/-- Multiplying an infinite product changes nothing. -/
theorem infinity_mul {c : Float} {m : ℕ} (hc : IsWhole c m) (hm : 1 ≤ m) :
    infinity * c = infinity := by
  have hpos : 0 < exact c := by
    rw [hc.exact_eq]
    exact_mod_cast hm
  have hfinite := (isFinite_iff c).mp hc.isFinite
  rw [exact_eq] at hpos
  have hproduct : UnpackedFloat.mul Format.binary64 infinity.toModel.unpack c.toModel.unpack =
      .infinity .positive := by
    rw [unpack_infinity]
    generalize c.toModel.unpack = u at hfinite hpos
    cases hfinite with
    | zero sign => exact absurd hpos (lt_irrefl 0)
    | @finite sign m e hm _ _ =>
      cases sign with
      | positive => rfl
      | negative =>
        have hneg : (0 : ℚ) < m * 2 ^ e := by positivity
        exact absurd hpos (neg_neg_of_pos hneg).not_gt
  exact congrArg (fun u => Float.ofModel (pack u)) hproduct

def AtLeast (q : ℚ) (x : Float) : Prop := x = infinity ∨ x.isFinite = true ∧ q ≤ exact x

theorem infinity_le_iff {x : Float} : infinity ≤ x ↔ x = infinity := by
  have hle : infinity ≤ x ↔ UnpackedFloat.le (.infinity .positive) x.toModel.unpack = true := by
    rw [← unpack_infinity]
    exact decide_eq_true_iff
  rw [hle]
  constructor
  · intro h
    apply eq_infinity_of_unpack
    generalize x.toModel.unpack = u at h
    rcases u with (_ | _) | _ | _ | _
    · exact absurd h (by decide)
    · rfl
    all_goals exact absurd h Bool.false_ne_true
  · rintro rfl
    rw [unpack_infinity]
    rfl

/-- A finite double is compared by its value, also with the infinite ones. -/
theorem le_iff_atLeast {a x : Float} (ha : a.isFinite = true) : a ≤ x ↔ AtLeast (exact a) x := by
  by_cases hx : x.isFinite = true
  · rw [le_iff ha hx]
    constructor
    · intro h
      exact .inr ⟨hx, h⟩
    · rintro (rfl | ⟨-, h⟩)
      · exact nomatch isFinite_infinity.symm.trans hx
      · exact h
  · have hle : a ≤ x ↔ UnpackedFloat.le a.toModel.unpack x.toModel.unpack = true :=
      decide_eq_true_iff
    have hmodel : ¬x.toModel.unpack.isFinite = true := hx
    have hfinite := (isFinite_iff a).mp ha
    rw [hle]
    constructor
    · intro h
      left
      apply eq_infinity_of_unpack
      generalize x.toModel.unpack = u at h hmodel
      generalize a.toModel.unpack = v at h hfinite
      rcases u with (_ | _) | _ | _ | _
      · cases hfinite <;> exact absurd h Bool.false_ne_true
      · rfl
      · cases hfinite <;> exact absurd h Bool.false_ne_true
      · exact absurd rfl hmodel
      · exact absurd rfl hmodel
    · rintro (rfl | ⟨hfinite, -⟩)
      · rw [unpack_infinity]
        generalize a.toModel.unpack = v at hfinite
        cases hfinite <;> rfl
      · exact absurd hfinite hx

/-- What is at least zero is a number and not below zero, as the comparison of doubles has it. -/
theorem atLeast_zero_iff (x : Float) : AtLeast 0 x ↔ ¬(x.isNaN = true ∨ x < 0.0) := by
  have hzero : (0.0 : Float).isFinite = true := rfl
  by_cases hx : x.isFinite = true
  · have hnumber : ¬x.isNaN = true := by
      have hmodel : x.toModel.unpack.isFinite = true := hx
      change ¬x.toModel.unpack.isNaN = true
      generalize x.toModel.unpack = u at hmodel
      rcases u with _ | _ | _ | _
      · exact nomatch hmodel
      · exact nomatch hmodel
      · exact Bool.false_ne_true
      · exact Bool.false_ne_true
    rw [lt_iff hx hzero, exact_zero, or_iff_right hnumber, not_lt]
    constructor
    · rintro (rfl | ⟨-, h⟩)
      · exact nomatch isFinite_infinity.symm.trans hx
      · exact h
    · intro h
      exact .inr ⟨hx, h⟩
  · have hlt : x < 0.0 ↔ UnpackedFloat.lt x.toModel.unpack (.zero .positive) = true :=
      decide_eq_true_iff
    have hmodel : ¬x.toModel.unpack.isFinite = true := hx
    rw [hlt]
    constructor
    · rintro (rfl | ⟨hfinite, -⟩)
      · have hnan : infinity.isNaN = infinity.toModel.unpack.isNaN := rfl
        rw [hnan, unpack_infinity]
        rintro (h | h) <;> exact absurd h Bool.false_ne_true
      · exact absurd hfinite hx
    · intro h
      left
      apply eq_infinity_of_unpack
      have hnan : ¬x.toModel.unpack.isNaN = true := fun hnan => h (.inl hnan)
      have hbelow := fun hlt => h (.inr hlt)
      generalize x.toModel.unpack = u at hmodel hnan hbelow
      rcases u with (_ | _) | _ | _ | _
      · exact absurd rfl hbelow
      · rfl
      · exact absurd rfl hnan
      · exact absurd rfl hmodel
      · exact absurd rfl hmodel

namespace AtLeast

variable {q : ℚ} {x y : Float}

theorem of_isFinite (hx : x.isFinite = true) : AtLeast (exact x) x := .inr ⟨hx, le_rfl⟩

theorem mono (h : AtLeast q x) {q' : ℚ} (hq : q' ≤ q) : AtLeast q' x :=
  h.imp_right fun ⟨hx, hle⟩ => ⟨hx, hq.trans hle⟩

theorem trans (h : AtLeast q x) (hle : x ≤ y) : AtLeast q y := by
  rcases h with rfl | ⟨hx, hq⟩
  · exact .inl (infinity_le_iff.mp hle)
  · exact ((le_iff_atLeast hx).mp hle).mono hq

theorem isNaN_eq_false (h : AtLeast q x) : x.isNaN = false := by
  change x.toModel.unpack.isNaN = false
  rcases h with rfl | ⟨hx, -⟩
  · rw [unpack_infinity]
    rfl
  · have hmodel : x.toModel.unpack.isFinite = true := hx
    generalize x.toModel.unpack = u at hmodel
    rcases u with _ | _ | _ | _
    · exact nomatch hmodel
    · exact nomatch hmodel
    · rfl
    · rfl

theorem isInf_eq_not_isFinite (h : AtLeast q x) : x.isInf = !x.isFinite := by
  change x.toModel.unpack.isInf = !x.toModel.unpack.isFinite
  have hnumber : x.toModel.unpack.isNaN = false := h.isNaN_eq_false
  generalize x.toModel.unpack = u at hnumber
  rcases u with _ | _ | _ | _
  · rfl
  · exact nomatch hnumber
  · rfl
  · rfl

theorem eq_infinity_of_isInf (h : AtLeast q x) (hinf : x.isInf = true) : x = infinity := by
  rw [h.isInf_eq_not_isFinite] at hinf
  rcases h with rfl | ⟨hx, -⟩
  · rfl
  · rw [hx] at hinf
    exact nomatch hinf

/-- A factor that is at least one makes nothing smaller. -/
theorem mul_isWhole (h : AtLeast q x) (hq : 0 < q) {c : Float} {m : ℕ} (hc : IsWhole c m)
    (hm : 1 ≤ m) : AtLeast q (x * c) := by
  rcases h with rfl | ⟨hx, hle⟩
  · exact .inl (infinity_mul hc hm)
  · have hpos : 0 < exact x := hq.trans_le hle
    have hone : (1 : ℚ) ≤ m := by exact_mod_cast hm
    have hrounded := isRounded_mul hx hc.isFinite
    rw [hc.exact_eq] at hrounded
    rcases hrounded.isFinite_or_eq_infinity (by positivity) with hfinite | hinfinite
    · have hmore : exact x ≤ exact x * m := le_mul_of_one_le_right hpos.le hone
      have hkept := (isRounded_exact hx).mono hx hrounded hfinite hmore
      exact .inr ⟨hfinite, hle.trans hkept⟩
    · exact .inl hinfinite

end AtLeast

theorem floor_of_not_isFinite {x : Float} (hx : ¬x.isFinite = true) : floor x = x := by
  have hmodel : ¬x.toModel.unpack.isFinite = true := hx
  rw [floor, integral, reading]
  generalize x.toModel.unpack = u at hmodel
  rcases u with _ | _ | _ | _
  · rfl
  · rfl
  · exact absurd rfl hmodel
  · exact absurd rfl hmodel

/-- A natural number is not above a double just when it is not above its floor. -/
theorem atLeast_floor_iff {x : Float} (n : ℕ) : AtLeast n (floor x) ↔ AtLeast n x := by
  by_cases hx : x.isFinite = true
  · have hfloor : (floor x).isFinite = true := (isFinite_integral _ x).trans hx
    have hvalue : (n : ℚ) ≤ exact (floor x) ↔ (n : ℚ) ≤ exact x := by
      rw [exact_floor hx]
      exact_mod_cast Int.le_floor (z := (n : ℤ)) (a := exact x)
    have hne : ∀ {y : Float}, y.isFinite = true → y ≠ infinity := by
      rintro y hy rfl
      exact nomatch isFinite_infinity.symm.trans hy
    rw [AtLeast, AtLeast, or_iff_right (hne hfloor), or_iff_right (hne hx), hvalue, hfloor, hx]
  · rw [floor_of_not_isFinite hx]

end DeskCalculator.Number
