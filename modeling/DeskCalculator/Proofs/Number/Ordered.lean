import DeskCalculator.Proofs.Number.Canonical

/-!
The order of displayed results. A greater magnitude is displayed as a greater number or the same
one, on whichever side of an integer the two lie and however large they are; a negative number is
displayed as its magnitude with a minus sign. So what is displayed is ordered as the results are.
-/
namespace DeskCalculator.Number

section Places

variable {q : ℚ} {k j : ℕ} (hnearest : IsNearest k (q * (10 ^ 10 : ℕ)))
include hnearest

/-- Rounding to places does not carry a number over an integer. -/
theorem value_le_of_le (h : q ≤ j) : (fixedNumeral k 10).trimmed.value ≤ j := by
  have hunits : q * (10 ^ 10 : ℕ) ≤ (j * 10 ^ 10 : ℕ) := by
    push_cast
    gcongr
  have hk : (k : ℚ) ≤ (j * 10 ^ 10 : ℕ) := by exact_mod_cast hnearest.le_natCast hunits
  rw [value_trimmed_fixedNumeral 9, div_le_iff₀ (by positivity)]
  exact_mod_cast hk

theorem le_value_of_le (h : j ≤ q) : j ≤ (fixedNumeral k 10).trimmed.value := by
  have hunits : ((j * 10 ^ 10 : ℕ) : ℚ) ≤ q * (10 ^ 10 : ℕ) := by
    push_cast
    gcongr
  have hk : ((j * 10 ^ 10 : ℕ) : ℚ) ≤ k := by exact_mod_cast hnearest.natCast_le hunits
  rw [value_trimmed_fixedNumeral 9, le_div_iff₀ (by positivity)]
  exact_mod_cast hk

end Places

namespace Displays

variable {q q' : ℚ} {n n' : Numeral}

/-- A magnitude is displayed in one way only. -/
theorem unique (h : Displays q n) (h' : Displays q n') : n = n' := by
  cases h with
  | @integer j _ hwritten hnear =>
    cases h' with
    | @integer j' _ hwritten' hnear' =>
      have hhalf : |q - (j : ℤ)| < 1 / 2 := hnear.trans (by norm_num)
      have hhalf' : |q - (j' : ℤ)| < 1 / 2 := hnear'.trans (by norm_num)
      obtain rfl : j = j' := by exact_mod_cast int_eq_of_near hhalf.le hhalf'
      rw [hwritten.unique hwritten']
    | fraction hfar _ _ => exact absurd hnear (hfar j).not_gt
  | fraction hfar _ hnearest =>
    cases h' with
    | @integer j' _ _ hnear' => exact absurd hnear' (hfar j').not_gt
    | fraction _ _ hnearest' => rw [hnearest.unique hnearest']

/-- Two integers are written in their order, and an integer is next to no number that is displayed
with places, so it lies on the same side of that number as what is next to it does. -/
theorem mono (h : Displays q n) (h' : Displays q' n') (hle : q ≤ q') : n.value ≤ n'.value := by
  cases h with
  | @integer j written hwritten hnear =>
    obtain ⟨-, hlow⟩ := abs_sub_lt_iff.mp hnear
    rw [value_wholeNumeral]
    cases h' with
    | @integer j' written' hwritten' hnear' =>
      obtain ⟨hhigh, -⟩ := abs_sub_lt_iff.mp hnear'
      have hnext : (j : ℚ) < j' + 1 := by
        norm_num at hlow hhigh ⊢
        linarith
      have horder : j ≤ j' := Nat.le_of_lt_succ (by exact_mod_cast hnext)
      rw [value_wholeNumeral]
      exact_mod_cast hwritten.mono hwritten' horder
    | fraction hfar hbound hnearest =>
      have horder : (j : ℚ) ≤ q' := by
        by_contra! hlt
        have hcontra := hfar j
        rw [abs_sub_comm, abs_of_pos (sub_pos.mpr hlt)] at hcontra
        linarith
      have hj : (j : ℚ) ≤ 2 ^ 53 := horder.trans hbound.le
      rw [hwritten.kept (by exact_mod_cast hj)]
      exact le_value_of_le hnearest horder
  | @fraction k hfar hbound hnearest =>
    cases h' with
    | @integer j' written' hwritten' hnear' =>
      obtain ⟨hhigh, -⟩ := abs_sub_lt_iff.mp hnear'
      have horder : q ≤ j' := by
        by_contra! hlt
        have hcontra := hfar j'
        rw [abs_of_pos (sub_pos.mpr hlt)] at hcontra
        linarith
      -- The integer may be too large to be written as itself, but then `2 ^ 53` is in between.
      have hleast : q ≤ (min j' (2 ^ 53) : ℕ) := by
        rw [Nat.cast_min]
        exact le_min horder (by exact_mod_cast hbound.le)
      have hwhole := hwritten'.natCast_le (min_le_right j' (2 ^ 53)) (min_le_left j' (2 ^ 53))
      rw [value_wholeNumeral]
      exact (value_le_of_le hnearest hleast).trans (by exact_mod_cast hwhole)
    | @fraction k' _ _ hnearest' =>
      have hunits : q * (10 ^ 10 : ℕ) ≤ q' * (10 ^ 10 : ℕ) := by gcongr
      have hk : (k : ℚ) ≤ k' := by exact_mod_cast hnearest.mono hnearest' hunits
      rw [value_trimmed_fixedNumeral 9, value_trimmed_fixedNumeral 9]
      gcongr

theorem value_eq_zero (h : Displays 0 n) : n.value = 0 := by
  have hzero : Displays ((0 : ℕ) : ℚ) n := by rwa [Nat.cast_zero]
  rw [hzero.value_of_natCast (by norm_num), Nat.cast_zero]

/-- What writes zero is the digit zero. -/
theorem text_of_value_eq_zero (h : Displays q n) (hzero : n.value = 0) : n.text = ['0'] := by
  cases h with
  | @integer _ written _ _ =>
    rw [value_wholeNumeral, Nat.cast_eq_zero] at hzero
    rw [text_wholeNumeral, hzero]
    rfl
  | @fraction k hfar _ hnearest =>
    rw [value_trimmed_fixedNumeral 9, div_eq_zero_iff] at hzero
    have hk : k = 0 := by exact_mod_cast hzero.resolve_right (by positivity)
    exact absurd (hk ▸ dvd_zero _) (not_dvd_of_far hfar hnearest)

end Displays

def toggled : List Char → List Char
  | '-' :: rest => rest
  | text => '-' :: text

theorem toggled_signedText {n : Numeral} (h : n.IsPlain) (negative : Bool) :
    toggled (signedText negative n.text) = signedText (!negative) n.text := by
  cases negative with
  | true => rfl
  | false =>
    obtain ⟨c, rest, htext, hc⟩ := h.exists_text_eq_cons
    have hne : c ≠ '-' := by
      rintro rfl
      exact absurd hc (by decide)
    rw [htext]
    change toggled (c :: rest) = '-' :: c :: rest
    unfold toggled
    split
    · exact absurd (List.cons.inj ‹_›).1 hne
    · rfl

section Finite

variable {x y : Float} (hx : x.isFinite = true)
include hx

/-- What is written for a larger double is not smaller. -/
theorem written?_le_of_le (hy : y.isFinite = true) (hle : exact x ≤ exact y) :
    ∃ p q, written? (plainText x) = some p ∧ written? (plainText y) = some q ∧ p ≤ q := by
  obtain ⟨n, hdisplays, htext⟩ := exists_displays hx
  obtain ⟨n', hdisplays', htext'⟩ := exists_displays hy
  have hnonneg := hdisplays.isPlain.value_nonneg
  have hnonneg' := hdisplays'.isPlain.value_nonneg
  rw [htext, htext', written?_of_displays hdisplays, written?_of_displays hdisplays']
  refine ⟨_, _, rfl, rfl, ?_⟩
  by_cases hneg : exact x < 0
  · rw [if_pos hneg]
    by_cases hneg' : exact y < 0
    · rw [if_pos hneg']
      refine neg_le_neg (hdisplays'.mono hdisplays ?_)
      rw [abs_of_neg hneg, abs_of_neg hneg']
      exact neg_le_neg hle
    · rw [if_neg hneg']
      linarith
  · have hpos := not_lt.mp hneg
    have hpos' := hpos.trans hle
    rw [if_neg hneg, if_neg hpos'.not_gt]
    refine hdisplays.mono hdisplays' ?_
    rwa [abs_of_nonneg hpos, abs_of_nonneg hpos']

/-- Negation puts the sign on or takes it off, unless both texts are that of zero. -/
theorem plainText_neg :
    plainText x = ['0'] ∧ plainText (-x) = ['0'] ∨
      plainText x ≠ ['0'] ∧ plainText (-x) = toggled (plainText x) := by
  obtain ⟨n, hdisplays, htext⟩ := exists_displays hx
  obtain ⟨n', hdisplays', htext'⟩ := exists_displays ((isFinite_neg x).trans hx)
  rw [exact_neg, abs_neg] at hdisplays'
  obtain rfl := hdisplays.unique hdisplays'
  rw [exact_neg] at htext'
  by_cases hzero : n.value = 0
  · left
    have hdigit := hdisplays.text_of_value_eq_zero hzero
    simp only [hzero, ne_eq, not_true_eq_false, and_false, decide_false, hdigit] at htext htext'
    exact ⟨htext, htext'⟩
  · right
    have hne : exact x ≠ 0 := by
      intro hexact
      rw [hexact, abs_zero] at hdisplays
      exact hzero hdisplays.value_eq_zero
    have hopposite : ¬ exact x < 0 ↔ -exact x < 0 := by
      rw [neg_lt_zero, not_lt]
      exact hne.symm.le_iff_lt
    have hsign : (!decide (exact x < 0)) = decide (-exact x < 0) := by
      rw [← decide_not]
      exact decide_eq_decide.mpr hopposite
    simp only [hzero, ne_eq, not_false_eq_true, and_true] at htext htext'
    rw [htext', htext, toggled_signedText hdisplays.isPlain, hsign]
    refine ⟨?_, rfl⟩
    intro hdigit
    have hwritten := hdisplays.isPlain.written?_signedText (decide (exact x < 0))
    have hnone : written? ['0'] = some 0 := by decide +kernel
    rw [hdigit, hnone] at hwritten
    have hvalue := Option.some.inj hwritten
    split_ifs at hvalue
    · exact hzero (neg_eq_zero.mp hvalue.symm)
    · exact hzero hvalue.symm

end Finite

theorem plain_eq_zero_iff (x : Float) : plain x = "0" ↔ plainText x = ['0'] :=
  String.ofList_inj

/-- Displaying keeps the order of finite results, across integers, places and the largest doubles;
and the negated result is displayed with its sign put on or taken off, except that both are shown
as zero together. -/
theorem plain_ordered_and_odd {x y : Float} (hx : x.isFinite = true) (hy : y.isFinite = true) :
    (x ≤ y → ∃ p q, written? (plain x).toList = some p ∧ written? (plain y).toList = some q ∧
      p ≤ q) ∧
      (plain x = "0" ∧ plain (-x) = "0" ∨
        plain x ≠ "0" ∧ (plain (-x)).toList = toggled (plain x).toList) := by
  have hlist : ∀ z : Float, (plain z).toList = plainText z := fun z => String.toList_ofList
  rw [hlist, hlist, hlist, Ne, plain_eq_zero_iff, plain_eq_zero_iff]
  refine ⟨?_, plainText_neg hx⟩
  intro hle
  exact written?_le_of_le hx hy ((le_iff hx hy).mp hle)

/-- Below minus two, one result is near enough to be displayed as the integer and one is not. -/
theorem plain_ordered_and_odd_at_tolerance :
    (-2.0000000001 : Float) ≤ -2.00000000009 ∧
      plain (-2.0000000001) = "-2.0000000001" ∧ plain (-2.00000000009) = "-2" ∧
      (∃ p q, written? "-2.0000000001".toList = some p ∧ written? "-2".toList = some q ∧ p ≤ q) ∧
      (plain (- -2.0000000001)).toList = "2.0000000001".toList := by
  have hx : (-2.0000000001 : Float).isFinite = true := by decide +kernel
  have hy : (-2.00000000009 : Float).isFinite = true := by decide +kernel
  have hle : (-2.0000000001 : Float) ≤ -2.00000000009 := by decide +kernel
  have htext : plain (-2.0000000001) = "-2.0000000001" := by decide +kernel
  have htext' : plain (-2.00000000009) = "-2" := by decide +kernel
  have hresult := plain_ordered_and_odd hx hy
  rw [htext, htext'] at hresult
  obtain ⟨horder, ⟨hzero, -⟩ | ⟨-, htoggled⟩⟩ := hresult
  · exact absurd hzero (by decide)
  · refine ⟨hle, htext, htext', horder hle, htoggled.trans ?_⟩
    decide +kernel

end DeskCalculator.Number
