import DeskCalculator.Proofs.Number.Display

/-!
The one spelling of a displayed result. What is displayed as an integer has no zero in front and no
point; of ten places one that is not zero always remains; and a minus sign stands only before what
is not zero. The number written is closer to the result than the tolerance, as long as all integers
in that range are doubles.
-/
namespace DeskCalculator.Number

def written? (text : List Char) : Option ℚ :=
  let (sign, unsigned) := takeSign text
  match Numeral.scan? isExponentMark unsigned with
  | some (n, []) => some (if sign = some '-' then -n.value else n.value)
  | _ => none

namespace Numeral.IsPlain

variable {n : Numeral} (h : n.IsPlain)
include h

theorem exists_text_eq_cons : ∃ c rest, n.text = c :: rest ∧ c.isDigit = true :=
  Writes.exists_eq_cons ⟨n, h, rfl, rfl⟩

/-- A sign in front of a numeral negates what it writes. -/
theorem written?_signedText (negative : Bool) :
    written? (signedText negative n.text) = some (if negative then -n.value else n.value) := by
  obtain ⟨c, rest, htext, hc⟩ := h.exists_text_eq_cons
  have htake : takeSign (signedText negative n.text) =
      (if negative then some '-' else none, n.text) := by
    rw [htext]
    cases negative with
    | false =>
      have hnone : ∀ s ∈ (none : Option Char), isSign s = true := nofun
      exact takeSign_append hnone hc rest
    | true => rfl
  rw [written?, htake]
  dsimp only
  rw [(h.isProper _).scan?_text not_isDigit_of_isExponentMark rfl]
  cases negative <;> rfl

/-- The point stands in the text just when there is a fraction. -/
theorem point_mem_signedText_iff (negative : Bool) :
    '.' ∈ signedText negative n.text ↔ n.fraction ≠ none := by
  have hsigned : '.' ∈ signedText negative n.text ↔ '.' ∈ n.text := by
    cases negative <;> simp [signedText]
  have hwhole : '.' ∉ n.whole := fun hmem => absurd (h.whole '.' hmem) (by decide)
  rw [hsigned, h.text_eq]
  cases n.fraction <;> simp [hwhole]

theorem value_nonneg : 0 ≤ n.value := by
  rw [h.value_eq]
  positivity

end Numeral.IsPlain

namespace Displays

variable {q : ℚ} {n : Numeral}

theorem isCanonical (h : Displays q n) : n.IsCanonical 10 := by
  cases h with
  | @integer _ written _ _ => exact isCanonical_wholeNumeral written 10
  | fraction _ _ _ => exact isCanonical_trimmed_fixedNumeral (by norm_num)

/-- A point is shown just when the magnitude is not near to an integer. -/
theorem fraction_eq_none_iff (h : Displays q n) :
    n.fraction = none ↔ ∃ j : ℕ, |q - j| < 1 / 10 ^ 10 := by
  cases h with
  | integer _ hnear => exact ⟨fun _ => ⟨_, hnear⟩, fun _ => rfl⟩
  | fraction hfar _ hnearest =>
    have hpoint := trimmed_fixedNumeral_fraction_ne_none (by norm_num)
      (not_dvd_of_far hfar hnearest)
    refine ⟨fun hnone => absurd hnone hpoint, ?_⟩
    rintro ⟨j, hj⟩
    exact absurd hj (hfar j).not_gt

/-- The shown magnitude is nearer than the tolerance. -/
theorem abs_value_sub_lt (h : Displays q n) (hq : q ≤ 2 ^ 53) : |n.value - q| < 1 / 10 ^ 10 := by
  cases h with
  | @integer j written hwritten hnear =>
    have hj : (j : ℚ) < 2 ^ 53 + 1 := by
      obtain ⟨hlow, -⟩ := abs_lt.mp (hnear.trans (by norm_num : (1 : ℚ) / 10 ^ 10 < 1))
      linarith
    have hkept := hwritten.kept (Nat.le_of_lt_succ (by exact_mod_cast hj))
    rw [value_wholeNumeral, hkept, abs_sub_comm]
    exact hnear
  | fraction _ _ hnearest =>
    have hnear := hnearest.abs_div_sub_le (by norm_num)
    rw [value_trimmed_fixedNumeral 9]
    push_cast at hnear
    exact hnear.trans_lt (by norm_num)

theorem value_of_natCast {j : ℕ} (h : Displays j n) (hj : j ≤ 2 ^ 53) : n.value = j := by
  obtain ⟨written, rfl, hwritten⟩ := h.exists_writesInteger
  rw [value_wholeNumeral, hwritten.kept hj]

end Displays

section Finite

variable {x : Float} (hx : x.isFinite = true)
include hx

/-- Trimming takes nothing but zeros off a result that is shown with places. -/
theorem exists_zeros_of_far (h : ¬ ∃ z : ℤ, |exact x - z| < 1 / 10 ^ 10) :
    ∃ zeros, fixedText fractionPlaces x = plainText x ++ List.replicate zeros '0' := by
  obtain ⟨k, hdisplays, htext, -⟩ := exists_displays_of_far hx h
  have hpoint : (fixedNumeral k 10).trimmed.fraction ≠ none := by
    rw [Ne, hdisplays.fraction_eq_none_iff, ← exists_int_near_iff]
    exact h
  obtain ⟨zeros, hzeros⟩ := (isPlain_fixedNumeral k 10).text_eq_trimmed_append_zeros rfl hpoint
  refine ⟨zeros, ?_⟩
  rw [plainText_of_far hx h, htext, trimZeros_signedText 9, hzeros, signedText_eq_append,
    signedText_eq_append, List.append_assoc]

end Finite

/-- A sign that a zero does not bear makes no difference to the number. -/
theorem written?_of_displays {q : ℚ} {n : Numeral} (h : Displays |q| n) :
    written? (signedText (decide (q < 0 ∧ n.value ≠ 0)) n.text) =
      some (if q < 0 then -n.value else n.value) := by
  rw [h.isPlain.written?_signedText]
  by_cases hzero : n.value = 0
  · simp [hzero]
  · simp [hzero]

/-- A finite result is displayed in its one spelling: digits without a leading zero, and if there is
a point, at most ten places of which the last is not zero; never an exponent, and a minus sign only
before what is not zero. The point is there unless the result is nearer than `10 ^ -10` to an
integer. Without a point nothing has been trimmed, and with one nothing but zeros behind it. Up to
`2 ^ 53` the number written is nearer to the result than `10 ^ -10`, and is the result itself if
that is an integer. -/
theorem plain_canonical_and_near {x : Float} (hx : x.isFinite = true) :
    ∃ (negative : Bool) (n : Numeral) (q : ℚ), (plain x).toList = signedText negative n.text ∧
      n.IsCanonical 10 ∧ (negative = true → n.value ≠ 0) ∧
      ('.' ∈ (plain x).toList ↔ ¬ ∃ z : ℤ, |exact x - z| < 1 / 10 ^ 10) ∧
      ('.' ∉ (plain x).toList → (plain x).toList = shortestText (round x + 0.0)) ∧
      ('.' ∈ (plain x).toList → ∃ zeros,
        fixedText fractionPlaces x = (plain x).toList ++ List.replicate zeros '0') ∧
      written? (plain x).toList = some q ∧
      (|exact x| ≤ 2 ^ 53 → |q - exact x| < 1 / 10 ^ 10 ∧ ∀ z : ℤ, exact x = z → q = z) := by
  obtain ⟨n, hdisplays, htext⟩ := exists_displays hx
  have hplain := hdisplays.isPlain
  have hlist : (plain x).toList = plainText x := String.toList_ofList
  have hpoint : '.' ∈ plainText x ↔ ¬ ∃ z : ℤ, |exact x - z| < 1 / 10 ^ 10 := by
    rw [htext, hplain.point_mem_signedText_iff, Ne, hdisplays.fraction_eq_none_iff,
      exists_int_near_iff]
  have hwritten := written?_of_displays hdisplays
  rw [← htext] at hwritten
  rw [hlist]
  refine ⟨_, n, _, htext, hdisplays.isCanonical, ?_, hpoint, ?_, ?_, hwritten, ?_⟩
  · intro hnegative
    exact (of_decide_eq_true hnegative).2
  · intro hnone
    exact plainText_of_near hx (not_not.mp (mt hpoint.mpr hnone))
  · intro hsome
    exact exists_zeros_of_far hx (hpoint.mp hsome)
  · intro hbound
    rw [abs_ite_neg_sub_eq]
    refine ⟨hdisplays.abs_value_sub_lt hbound, ?_⟩
    intro z hz
    have hnat : |exact x| = z.natAbs := by
      rw [hz, Nat.cast_natAbs, Int.cast_abs]
    have hkept : n.value = |exact x| := by
      rw [hnat] at hdisplays hbound ⊢
      exact hdisplays.value_of_natCast (by exact_mod_cast hbound)
    rw [hkept, ite_neg_abs, hz]

/-- Noise behind the tenth place is not displayed, and the sign is. -/
theorem plain_canonical_and_near_of_noise :
    (-0.30000000000000004 : Float).isFinite = true ∧
      plain (-0.30000000000000004) = "-0.3" ∧
      |-3 / 10 - exact (-0.30000000000000004)| < 1 / 10 ^ 10 := by
  have hfinite : (-0.30000000000000004 : Float).isFinite = true := by decide +kernel
  have htext : plain (-0.30000000000000004) = "-0.3" := by decide +kernel
  have hvalue : written? "-0.3".toList = some (-3 / 10) := by decide +kernel
  have hreading : reading (-0.30000000000000004) = .finite true 5404319552844596 (-54) := by
    decide +kernel
  obtain ⟨-, -, q, -, -, -, -, -, -, hwritten, hnear⟩ := plain_canonical_and_near hfinite
  rw [htext, hvalue] at hwritten
  obtain rfl := Option.some.inj hwritten
  refine ⟨hfinite, htext, (hnear ?_).1⟩
  rw [abs_exact_of_reading hreading]
  norm_num

end DeskCalculator.Number
