import DeskCalculator.Proofs.Number.Canonical

/-!
Amounts as they are shown: the nearest number of thousandths, without the zeros at its end, and with
commas between the thousands of its integer part. The groups are counted from the end, so a comma
always stands between two digits of the integer part; without the commas the text is the numeral
itself. A minus sign stands only before what is not zero.
-/
namespace DeskCalculator.Number

theorem filter_ne_comma {text : List Char} (h : ',' ∉ text) : text.filter (· != ',') = text := by
  apply List.filter_eq_self.mpr
  intro c hc
  exact bne_iff_ne.mpr (ne_of_mem_of_not_mem hc h)

/-- Characters in groups of three, of which the first may be shorter. -/
structure Grouping where
  first : List Char
  others : List (List Char)
  first_length : 1 ≤ first.length ∧ first.length ≤ 3
  others_length : ∀ group ∈ others, group.length = 3

namespace Grouping

def digits (g : Grouping) : List Char := g.first ++ g.others.flatten

def text (g : Grouping) : List Char := g.first ++ g.others.flatMap (',' :: ·)

def single (first : List Char) (hfirst : 1 ≤ first.length ∧ first.length ≤ 3) : Grouping where
  first := first
  others := []
  first_length := hfirst
  others_length := nofun

def extend (g : Grouping) (group : List Char) (hgroup : group.length = 3) : Grouping where
  first := g.first
  others := g.others ++ [group]
  first_length := g.first_length
  others_length := by
    intro other hother
    rcases List.mem_append.mp hother with hold | hlast
    · exact g.others_length other hold
    · exact List.mem_singleton.mp hlast ▸ hgroup

variable (g : Grouping)

theorem digits_single {first : List Char} (hfirst : 1 ≤ first.length ∧ first.length ≤ 3) :
    (single first hfirst).digits = first := List.append_nil first

theorem text_single {first : List Char} (hfirst : 1 ≤ first.length ∧ first.length ≤ 3) :
    (single first hfirst).text = first := List.append_nil first

theorem digits_extend {group : List Char} (hgroup : group.length = 3) :
    (g.extend group hgroup).digits = g.digits ++ group := by
  simp [digits, extend]

theorem text_extend {group : List Char} (hgroup : group.length = 3) :
    (g.extend group hgroup).text = g.text ++ ',' :: group := by
  simp [text, extend]

/-- The commas are all that is added to the characters. -/
theorem filter_text (h : ',' ∉ g.digits) : g.text.filter (· != ',') = g.digits := by
  rw [digits, List.mem_append, not_or] at h
  obtain ⟨hfirst, hothers⟩ := h
  rw [digits, text, List.filter_append, filter_ne_comma hfirst, List.filter_flatMap,
    List.flatten_eq_flatMap]
  congr 1
  apply List.flatMap_congr
  intro group hgroup
  have hnone : ',' ∉ group := fun hc => hothers (List.mem_flatten_of_mem hgroup hc)
  rw [List.filter_cons_of_neg (by simp), filter_ne_comma hnone, id]

end Grouping

/-- Counted from the end, a text falls into groups. -/
theorem exists_grouping_go {reversed : List Char} (hne : reversed ≠ []) :
    ∃ g : Grouping, g.digits = reversed.reverse ∧
      g.text = (groupThousands.go reversed).reverse := by
  induction reversed using groupThousands.go.induct with
  | case1 a b c d rest ih =>
    obtain ⟨g, hdigits, htext⟩ := ih (List.cons_ne_nil d rest)
    refine ⟨g.extend [c, b, a] rfl, ?_, ?_⟩
    · rw [g.digits_extend, hdigits]
      simp
    · rw [g.text_extend, htext, groupThousands.go]
      simp
  | case2 short hshort =>
    have hlength : 1 ≤ short.reverse.length ∧ short.reverse.length ≤ 3 := by
      rw [List.length_reverse]
      refine ⟨List.length_pos_iff.mpr hne, ?_⟩
      match short, hshort with
      | [], _ | [_], _ | [_, _], _ | [_, _, _], _ => simp
      | a :: b :: c :: d :: rest, hshort => exact (hshort a b c d rest rfl).elim
    refine ⟨.single short.reverse hlength, Grouping.digits_single hlength, ?_⟩
    rw [Grouping.text_single, groupThousands.go]
    exact hshort

theorem exists_grouping {text : List Char} (hne : text ≠ []) :
    ∃ g : Grouping, g.digits = text ∧ g.text = groupThousands text := by
  obtain ⟨g, hdigits, htext⟩ := exists_grouping_go (mt List.reverse_eq_nil_iff.mp hne)
  rw [List.reverse_reverse] at hdigits
  exact ⟨g, hdigits, htext⟩

namespace Numeral

def fractionText (n : Numeral) : List Char := n.fraction.elim [] ('.' :: ·)

namespace IsPlain

variable {n : Numeral} (h : n.IsPlain)
include h

/-- The point ends the whole part. -/
theorem takeWhile_text : n.text.takeWhile (· != '.') = n.whole := by
  have hwhole : ∀ c ∈ n.whole, (c != '.') = true := by
    intro c hc
    rw [bne, ne_point_of_isDigit (h.whole c hc), Bool.not_false]
  rw [h.text_eq, List.takeWhile_append_of_pos hwhole]
  cases n.fraction <;> simp

theorem dropWhile_text : n.text.dropWhile (· != '.') = n.fractionText := by
  have hsplit := List.takeWhile_append_dropWhile (p := (· != '.')) (l := n.text)
  rw [h.takeWhile_text] at hsplit
  exact List.append_cancel_left (hsplit.trans h.text_eq)

theorem comma_not_mem_text : ',' ∉ n.text := by
  intro hcomma
  rcases Writes.of_mem ⟨n, h, rfl, rfl⟩ hcomma with hdigit | hpoint
  · exact absurd hdigit (by decide)
  · exact absurd hpoint (by decide)

/-- Only zero is written as a zero with a sign. -/
theorem value_eq_zero_of_signedText {negative : Bool}
    (hzero : signedText negative n.text = ['-', '0']) : n.value = 0 := by
  have hwritten := h.written?_signedText negative
  have hnothing : written? ['-', '0'] = some 0 := by decide +kernel
  rw [hzero, hnothing] at hwritten
  cases negative with
  | false => exact (Option.some.inj hwritten).symm
  | true => exact neg_eq_zero.mp (Option.some.inj hwritten).symm

end IsPlain

def withCommas (n : Numeral) : List Char := groupThousands n.whole ++ n.fractionText

namespace IsPlain

variable {n : Numeral} (h : n.IsPlain)
include h

/-- Only the whole part is grouped. -/
theorem exists_grouping_whole :
    ∃ g : Grouping, g.digits = n.whole ∧ n.withCommas = g.text ++ n.fractionText := by
  obtain ⟨g, hdigits, htext⟩ := exists_grouping h.nonempty
  exact ⟨g, hdigits, congrArg (· ++ n.fractionText) htext.symm⟩

theorem filter_withCommas : n.withCommas.filter (· != ',') = n.text := by
  obtain ⟨g, hdigits, htext⟩ := h.exists_grouping_whole
  have hparts : n.text = n.whole ++ n.fractionText := h.text_eq
  have hnone := h.comma_not_mem_text
  rw [hparts, List.mem_append, not_or] at hnone
  obtain ⟨hwhole, hfraction⟩ := hnone
  rw [htext, List.filter_append, g.filter_text (hdigits ▸ hwhole), filter_ne_comma hfraction,
    hdigits, hparts]

theorem filter_signedText_withCommas (negative : Bool) :
    (signedText negative n.withCommas).filter (· != ',') = signedText negative n.text := by
  rw [signedText_eq_append, signedText_eq_append, List.filter_append, h.filter_withCommas]
  cases negative <;> rfl

/-- What is not zero is never shown as a zero with a sign. -/
theorem signedText_withCommas_ne (hvalue : n.value ≠ 0) (negative : Bool) :
    signedText negative n.withCommas ≠ ['-', '0'] := by
  intro hsigned
  have hfilter := h.filter_signedText_withCommas negative
  rw [hsigned] at hfilter
  exact hvalue (h.value_eq_zero_of_signedText hfilter.symm)

/-- Of a numeral with a sign, the parts are found again. -/
theorem groupedText_eq {x : Float} {negative : Bool}
    (htrim : trimZeros (fixedText amountPlaces x) = signedText negative n.text) :
    groupedText x = if signedText negative n.withCommas = ['-', '0'] then ['0']
      else signedText negative n.withCommas := by
  have hparts : n.withCommas = groupThousands (n.text.takeWhile (· != '.')) ++
      n.text.dropWhile (· != '.') := by
    rw [h.takeWhile_text, h.dropWhile_text, withCommas]
  rw [groupedText, htrim, hparts]
  obtain ⟨c, rest, htext, hdigit⟩ := h.exists_text_eq_cons
  rw [htext]
  cases negative with
  | true => rfl
  | false =>
    have hsign : c ≠ '-' := by
      rintro rfl
      exact absurd hdigit (by decide)
    simp [signedText, hsign]

end IsPlain

end Numeral

section Finite

variable {x : Float} (hx : x.isFinite = true)
include hx

/-- An amount is shown as its nearest thousandth, without the zeros behind, and with commas. -/
theorem exists_groupedText_eq :
    ∃ k, IsNearest k (|exact x| * 10 ^ 3) ∧ groupedText x =
      signedText (decide (exact x < 0 ∧ k ≠ 0)) (fixedNumeral k 3).trimmed.withCommas := by
  obtain ⟨negative, m, e, hreading, -⟩ := exists_reading hx
  obtain ⟨k, hnearest, htext⟩ := fixedText_eq 2 hreading
  rw [← abs_exact_of_reading hreading] at hnearest
  have hplain : (fixedNumeral k 3).trimmed.IsPlain := (isPlain_fixedNumeral k 3).trimmed rfl
  have htrim : trimZeros (fixedText amountPlaces x) =
      signedText negative (fixedNumeral k 3).trimmed.text := by
    rw [amountPlaces, htext]
    exact trimZeros_signedText 2 k
  refine ⟨k, hnearest, ?_⟩
  rw [hplain.groupedText_eq htrim]
  by_cases hk : k = 0
  · -- The sign of a negative number that is rounded to zero is taken off again.
    have hzero : (fixedNumeral 0 3).trimmed.withCommas = ['0'] := by decide +kernel
    subst hk
    rw [hzero]
    cases negative <;> simp [signedText]
  · have hne : exact x ≠ 0 := by
      intro hzero
      rw [hzero, abs_zero, zero_mul] at hnearest
      exact hk (hnearest.unique (IsNearest.natCast 0))
    have hvalue : (fixedNumeral k 3).trimmed.value ≠ 0 := by
      rw [value_trimmed_fixedNumeral 2]
      positivity
    have hsign := decide_neg_of_reading hreading hne
    rw [if_neg (hplain.signedText_withCommas_ne hvalue negative)]
    simp only [hk, ne_eq, not_false_eq_true, and_true, hsign]

end Finite

theorem groupedText_of_not_finite {x : Float} (hx : x.isFinite = false) :
    groupedText x ∈ [nanText, infinityText true, infinityText false] := by
  have hmodel : x.toModel.unpack.isFinite = false := hx
  rw [groupedText, fixedText, reading]
  generalize x.toModel.unpack = u at hmodel ⊢
  rcases u with sign | _ | _ | _
  · cases sign <;> decide +kernel
  · decide +kernel
  · exact absurd hmodel.symm Bool.false_ne_true
  · exact absurd hmodel.symm Bool.false_ne_true

/-- What is shown of a finite amount is, without its commas, the one spelling of the nearest number
of thousandths, with a minus sign where something is left of a negative number; and the commas stand
between groups of three digits of the integer part, of which the first may be shorter. No comma
stands in the name of what is not finite. -/
theorem grouped_thousandths (x : Float) :
    (x.isFinite = true → ∃ (k : ℕ) (n : Numeral) (g : Grouping),
      IsNearest k (|exact x| * 10 ^ 3) ∧ n.IsCanonical 3 ∧ n.value = k / 10 ^ 3 ∧
      (grouped x).toList.filter (· != ',') = signedText (decide (exact x < 0 ∧ k ≠ 0)) n.text ∧
      g.digits = n.whole ∧
      (grouped x).toList =
        signedText (decide (exact x < 0 ∧ k ≠ 0)) (g.text ++ n.fractionText)) ∧
    (x.isFinite = false →
      grouped x ∈ ["NaN", "-inf", "inf"] ∧ ',' ∉ (grouped x).toList) := by
  have hlist : (grouped x).toList = groupedText x := String.toList_ofList
  refine ⟨?_, ?_⟩
  · intro hx
    obtain ⟨k, hnearest, htext⟩ := exists_groupedText_eq hx
    have hcanonical : (fixedNumeral k 3).trimmed.IsCanonical 3 :=
      isCanonical_trimmed_fixedNumeral (by norm_num)
    obtain ⟨g, hdigits, hcommas⟩ := hcanonical.exists_grouping_whole
    refine ⟨k, _, g, hnearest, hcanonical, value_trimmed_fixedNumeral 2 k, ?_, hdigits, ?_⟩
    · rw [hlist, htext, hcanonical.filter_signedText_withCommas]
    · rw [hlist, htext, hcommas]
  · intro hx
    have hname := groupedText_of_not_finite hx
    rw [hlist, grouped]
    simp only [List.mem_cons, List.not_mem_nil, or_false] at hname
    rcases hname with hnan | hnegative | hpositive
    · rw [hnan]
      decide
    · rw [hnegative]
      decide
    · rw [hpositive]
      decide

example : grouped (-0.0004) = "0" := by decide +kernel

/-- Half a thousandth goes to the even last digit, and what is no number has no digits. -/
theorem grouped_thousandths_of_tie :
    (-1234567.0625 : Float).isFinite = true ∧
      grouped (-1234567.0625) = "-1,234,567.062" ∧
      IsNearest 1234567062 (|exact (-1234567.0625)| * 10 ^ 3) ∧
      (0.0 / 0.0 : Float).isFinite = false ∧ ',' ∉ (grouped (0.0 / 0.0)).toList := by
  have hfinite : (-1234567.0625 : Float).isFinite = true := by decide +kernel
  have htext : grouped (-1234567.0625) = "-1,234,567.062" := by decide +kernel
  have hwritten : written? "-1234567.062".toList = some (-(1234567062 / 10 ^ 3)) := by
    decide +kernel
  have hnan : (0.0 / 0.0 : Float).isFinite = false := by decide +kernel
  obtain ⟨k, n, -, hnearest, hcanonical, hvalue, hfilter, -, -⟩ :=
    (grouped_thousandths (-1234567.0625)).1 hfinite
  generalize decide (exact (-1234567.0625) < 0 ∧ k ≠ 0) = negative at hfilter
  have hread := hcanonical.written?_signedText negative
  have hsame : ("-1,234,567.062".toList).filter (· != ',') = "-1234567.062".toList := by decide
  rw [← hfilter, htext, hsame, hwritten] at hread
  have hk : k = 1234567062 := by
    cases negative with
    | false =>
      have hnonneg := hcanonical.value_nonneg
      have heq : -(1234567062 / 10 ^ 3) = n.value := Option.some.inj hread
      norm_num at heq
      linarith
    | true =>
      have heq : -(1234567062 / 10 ^ 3) = -n.value := Option.some.inj hread
      rw [hvalue, neg_inj] at heq
      have hunits : (k : ℚ) = 1234567062 := by linarith
      exact_mod_cast hunits
  exact ⟨hfinite, htext, hk ▸ hnearest, hnan, ((grouped_thousandths _).2 hnan).2⟩

end DeskCalculator.Number
