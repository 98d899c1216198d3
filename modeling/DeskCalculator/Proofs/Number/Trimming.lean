import DeskCalculator.Number.Display
import DeskCalculator.Proofs.Number.Plain

/-!
Numerals without the zeros at their end. Trimming a numeral drops zeros behind its point, and the
point when no other digit is left behind it; the number that it writes stays, and so does the whole
part. What is left has one spelling only: no zero leads a longer whole part, and none ends a
fraction.
-/
namespace DeskCalculator.Number

section Trimming

variable {p : Char → Bool}

theorem dropTail_append_cons (front : List Char) {c : Char} (hc : p c = false) (rest : List Char) :
    Text.dropTail p (front ++ c :: rest) = front ++ c :: Text.dropTail p rest := by
  have hreverse : (front ++ c :: rest).reverse = rest.reverse ++ c :: front.reverse := by simp
  rw [Text.dropTail, Text.dropTail, hreverse, List.dropWhile_append]
  split_ifs with hnone
  · rw [List.isEmpty_iff.mp hnone, List.dropWhile_cons_of_neg (by simp [hc])]
    simp
  · simp

theorem dropTail_append_of_forall (front : List Char) {text : List Char} (hne : text ≠ [])
    (h : ∀ c ∈ text, p c = false) : Text.dropTail p (front ++ text) = front ++ text := by
  obtain ⟨c, rest, rfl⟩ := List.exists_cons_of_ne_nil hne
  obtain ⟨hc, hrest⟩ := List.forall_mem_cons.mp h
  rw [dropTail_append_cons front hc]
  congr 2
  exact List.rdropWhile_eq_self_iff.mpr fun hne => by simp [hrest _ (List.getLast_mem hne)]

theorem exists_dropTail_zeros (digits : List Char) :
    ∃ zeros, digits = Text.dropTail (· == '0') digits ++ List.replicate zeros '0' := by
  have hzeros : ∀ c ∈ digits.rtakeWhile (· == '0'), c = '0' := by
    intro c hc
    simpa using List.mem_rtakeWhile_imp hc
  refine ⟨(digits.rtakeWhile (· == '0')).length, ?_⟩
  rw [← List.eq_replicate_of_mem hzeros]
  exact (List.rdropWhile_append_rtakeWhile (p := (· == '0'))).symm

end Trimming

theorem ne_point_of_isDigit {c : Char} (hc : c.isDigit = true) : (c == '.') = false := by
  rw [beq_eq_false_iff_ne]
  rintro rfl
  exact absurd hc (by decide)

def keptDigits (digits : List Char) : Option (List Char) :=
  if digits.all (· == '0') then none else some (Text.dropTail (· == '0') digits)

section KeptDigits

variable {digits kept : List Char}

theorem keptDigits_eq_none_iff :
    keptDigits digits = none ↔ Text.dropTail (· == '0') digits = [] := by
  have hnil : Text.dropTail (· == '0') digits = [] ↔ ∀ c ∈ digits, (c == '0') = true :=
    List.rdropWhile_eq_nil_iff
  rw [hnil, keptDigits, ← List.all_eq_true]
  split_ifs with hall <;> simp [hall]

theorem eq_dropTail_of_mem_keptDigits (h : kept ∈ keptDigits digits) :
    Text.dropTail (· == '0') digits = kept := by
  rw [keptDigits] at h
  split_ifs at h
  · exact nomatch h
  · exact Option.some.inj h

/-- A fraction is the digits that are kept of it, and zeros. -/
theorem exists_keptDigits_append_zeros (digits : List Char) :
    ∃ zeros, digits = (keptDigits digits).getD [] ++ List.replicate zeros '0' := by
  obtain ⟨zeros, hzeros⟩ := exists_dropTail_zeros digits
  refine ⟨zeros, hzeros.trans ?_⟩
  cases hkept : keptDigits digits with
  | none => rw [keptDigits_eq_none_iff.mp hkept, Option.getD_none]
  | some kept => rw [eq_dropTail_of_mem_keptDigits hkept, Option.getD_some]

theorem exists_last_of_mem_keptDigits (h : kept ∈ keptDigits digits) :
    ∃ front c, kept = front ++ [c] ∧ c ≠ '0' := by
  have hdrop := eq_dropTail_of_mem_keptDigits h
  have hne : digits.rdropWhile (· == '0') ≠ [] := by
    intro hnil
    rw [keptDigits_eq_none_iff.mpr hnil] at h
    exact nomatch h
  have hlast := List.rdropWhile_last_not _ _ hne
  refine ⟨_, _, hdrop.symm.trans (List.dropLast_concat_getLast hne).symm, ?_⟩
  simpa using hlast

end KeptDigits

/-- The numeral without the zeros at the end of its fraction, and without the point when no digit is
left behind it. -/
def Numeral.trimmed (n : Numeral) : Numeral := { n with fraction := n.fraction.bind keptDigits }

/-- The one spelling of a number with at most so many decimal places. -/
structure Numeral.IsCanonical (places : ℕ) (n : Numeral) : Prop extends n.IsPlain where
  leading : n.whole = ['0'] ∨ ∃ c rest, n.whole = c :: rest ∧ c ≠ '0'
  short : (n.fraction.getD []).length ≤ places
  ending : ∀ digits ∈ n.fraction, ∃ front c, digits = front ++ [c] ∧ c ≠ '0'

theorem isCanonical_wholeNumeral (n places : ℕ) : (wholeNumeral n).IsCanonical places where
  toIsPlain := isPlain_wholeNumeral n
  leading := decimalText_cases n
  short := Nat.zero_le places
  ending := nofun

theorem Numeral.trimmed_fraction {n : Numeral} {digits : List Char}
    (h : n.fraction = some digits) : n.trimmed.fraction = keptDigits digits := by
  rw [trimmed, h, Option.bind_some]

namespace Numeral.IsPlain

variable {n : Numeral} (h : n.IsPlain) {digits : List Char} (hfraction : n.fraction = some digits)
include h hfraction

theorem trimmed : n.trimmed.IsPlain where
  whole := h.whole
  nonempty := h.nonempty
  fraction c hc := by
    obtain ⟨zeros, hzeros⟩ := exists_keptDigits_append_zeros digits
    rw [trimmed_fraction hfraction] at hc
    refine h.fraction c ?_
    rw [hfraction, Option.getD_some, hzeros]
    exact List.mem_append_left _ hc
  exponent := h.exponent

/-- Trimming does not change the number. -/
theorem value_trimmed : n.trimmed.value = n.value := by
  obtain ⟨zeros, hzeros⟩ := exists_keptDigits_append_zeros digits
  rw [(h.trimmed hfraction).value_eq, trimmed_fraction hfraction, h.value_eq, hfraction,
    Option.getD_some]
  change (decimalValue (n.whole ++ (keptDigits digits).getD []) : ℚ) / _ = _
  generalize (keptDigits digits).getD [] = kept at hzeros ⊢
  rw [hzeros, ← List.append_assoc, decimalValue_append (n.whole ++ kept),
    decimalValue_replicate_zero, add_zero]
  simp only [List.length_append, List.length_replicate, pow_add, Nat.cast_mul, Nat.cast_pow,
    Nat.cast_ofNat]
  field_simp

/-- The zeros at the end of a fraction go, and the point of an empty one. -/
theorem trimZeros_text (front : List Char) :
    trimZeros (front ++ n.text) = front ++ n.trimmed.text := by
  have htrim : trimZeros (front ++ n.text) = Text.dropTail (· == '.')
      (front ++ n.whole ++ '.' :: Text.dropTail (· == '0') digits) := by
    rw [trimZeros, h.text_eq, hfraction, Option.elim_some, ← List.append_assoc,
      dropTail_append_cons _ (by decide)]
  have hplain := h.trimmed hfraction
  have hdigits := hplain.fraction
  rw [htrim, hplain.text_eq, trimmed_fraction hfraction]
  rw [trimmed_fraction hfraction] at hdigits
  cases hkept : keptDigits digits with
  | none =>
    have hpoint : Text.dropTail (· == '.') (front ++ n.whole ++ ['.']) =
        Text.dropTail (· == '.') (front ++ n.whole) :=
      List.rdropWhile_concat_pos (· == '.') _ '.' (by decide)
    rw [keptDigits_eq_none_iff.mp hkept, hpoint, Option.elim_none, List.append_nil]
    exact dropTail_append_of_forall front h.nonempty fun c hc => ne_point_of_isDigit (h.whole c hc)
  | some kept =>
    obtain ⟨others, last, hlast, -⟩ := exists_last_of_mem_keptDigits hkept
    have hne : kept ≠ [] := by simp [hlast]
    have hsplit : front ++ n.whole ++ '.' :: kept = front ++ n.whole ++ ['.'] ++ kept := by simp
    rw [eq_dropTail_of_mem_keptDigits hkept, hsplit, dropTail_append_of_forall _ hne]
    · simp [Numeral.trimmed]
    · intro c hc
      exact ne_point_of_isDigit (hdigits c (by rwa [hkept]))

/-- As long as a digit is left behind the point, only zeros are lost. -/
theorem text_eq_trimmed_append_zeros (hkept : n.trimmed.fraction ≠ none) :
    ∃ zeros, n.text = n.trimmed.text ++ List.replicate zeros '0' := by
  obtain ⟨zeros, hzeros⟩ := exists_keptDigits_append_zeros digits
  have hplain := h.trimmed hfraction
  rw [trimmed_fraction hfraction] at hkept
  obtain ⟨kept, hsome⟩ := Option.ne_none_iff_exists'.mp hkept
  refine ⟨zeros, ?_⟩
  rw [h.text_eq, hplain.text_eq, trimmed_fraction hfraction, hfraction, hsome]
  rw [hsome, Option.getD_some] at hzeros
  conv_lhs => rw [hzeros]
  simp [Numeral.trimmed]

end Numeral.IsPlain

section Fixed

variable {digits places : ℕ}

theorem isCanonical_trimmed_fixedNumeral (hplaces : 0 < places) :
    (fixedNumeral digits places).trimmed.IsCanonical places where
  toIsPlain := (isPlain_fixedNumeral digits places).trimmed rfl
  leading := decimalText_cases _
  short := by
    obtain ⟨fraction, hfraction, hlength, -⟩ := exists_fraction_fixedNumeral digits hplaces
    obtain ⟨zeros, hzeros⟩ := exists_keptDigits_append_zeros fraction
    have htotal := congrArg List.length hzeros
    rw [Numeral.trimmed_fraction hfraction]
    rw [List.length_append] at htotal
    omega
  ending _ := exists_last_of_mem_keptDigits

/-- A number that is no multiple of the unit keeps its point. -/
theorem trimmed_fixedNumeral_fraction_ne_none (hplaces : 0 < places)
    (h : ¬ 10 ^ places ∣ digits) : (fixedNumeral digits places).trimmed.fraction ≠ none := by
  intro hnone
  obtain ⟨fraction, hfraction, -, hvalue⟩ := exists_fraction_fixedNumeral digits hplaces
  obtain ⟨zeros, hzeros⟩ := exists_keptDigits_append_zeros fraction
  rw [Numeral.trimmed_fraction hfraction] at hnone
  rw [hnone, Option.getD_none, List.nil_append] at hzeros
  rw [hzeros, decimalValue_replicate_zero] at hvalue
  exact h (Nat.dvd_of_mod_eq_zero hvalue.symm)

end Fixed

end DeskCalculator.Number
