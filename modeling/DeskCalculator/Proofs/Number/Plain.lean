import DeskCalculator.Proofs.Number.Decimals
import DeskCalculator.Proofs.Number.Digits
import DeskCalculator.Proofs.Number.Numerals

/-!
Numerals without an exponent. The texts of decimal numbers are such numerals, and reading one gives
the number that it writes, rounded.
-/
namespace DeskCalculator.Number

theorem foldl_decimalValue (text : List Char) (start : ℕ) :
    text.foldl (fun acc c => 10 * acc + (c.toNat - 48)) start =
      start * 10 ^ text.length + decimalValue text := by
  unfold decimalValue
  induction text generalizing start with
  | nil => simp
  | cons c rest ih =>
    rw [List.foldl_cons, List.foldl_cons, ih, ih (10 * 0 + _), List.length_cons, pow_succ]
    ring

theorem decimalValue_append (front behind : List Char) :
    decimalValue (front ++ behind) =
      decimalValue front * 10 ^ behind.length + decimalValue behind := by
  conv_lhs => rw [decimalValue, List.foldl_append]
  exact foldl_decimalValue behind _

theorem decimalValue_replicate_zero (n : ℕ) : decimalValue (List.replicate n '0') = 0 := by
  induction n with
  | zero => rfl
  | succ n ih =>
    rw [List.replicate_succ', decimalValue_append, ih]
    rfl

theorem length_digits_le {base value k : ℕ} (h : value < base ^ k) :
    (digits base value).length ≤ k := by
  induction k generalizing value with
  | zero =>
    obtain rfl : value = 0 := by simpa using h
    rw [digits, dif_neg (by omega)]
    rfl
  | succ k ih =>
    rw [digits]
    split_ifs with hvalue
    · have hrest : value / base < base ^ k := by
        rw [pow_succ] at h
        exact Nat.div_lt_of_lt_mul (by linarith)
      exact Nat.succ_le_succ (ih hrest)
    · exact Nat.zero_le _

theorem length_decimalText_le {n k : ℕ} (hk : 0 < k) (h : n < 10 ^ k) :
    (decimalText n).length ≤ k := by
  rw [decimalText, radixText]
  split_ifs
  · exact hk
  · rw [List.length_map, List.length_reverse]
    exact length_digits_le h

structure Numeral.IsPlain (n : Numeral) : Prop where
  whole : ∀ c ∈ n.whole, c.isDigit = true
  nonempty : n.whole ≠ []
  fraction : ∀ c ∈ n.fraction.getD [], c.isDigit = true
  exponent : n.exponent = none

def Numeral.value (n : Numeral) : ℚ := n.decimal.digits * 10 ^ n.decimal.exponent

/-- Whether a text is a plain numeral that writes `q`. -/
def Writes (text : List Char) (q : ℚ) : Prop :=
  ∃ n : Numeral, n.IsPlain ∧ n.text = text ∧ n.value = q

namespace Numeral.IsPlain

variable {n : Numeral}

theorem text_eq (h : n.IsPlain) : n.text = n.whole ++ n.fraction.elim [] ('.' :: ·) := by
  rw [Numeral.text_eq, h.exponent, Option.elim_none, List.append_nil]

theorem value_eq (h : n.IsPlain) : n.value =
    decimalValue (n.whole ++ n.fraction.getD []) / 10 ^ (n.fraction.getD []).length := by
  rw [value, decimal, h.exponent, div_eq_mul_inv, ← zpow_natCast, ← zpow_neg]
  simp

theorem isProper (h : n.IsPlain) (isMark : Char → Bool) : n.IsProper isMark where
  whole := h.whole
  fraction := h.fraction
  nonempty := .inl h.nonempty
  exponent := by simp [h.exponent]

end Numeral.IsPlain

namespace Writes

variable {text : List Char} {q : ℚ}

theorem exists_eq_cons (h : Writes text q) : ∃ c rest, text = c :: rest ∧ c.isDigit = true := by
  obtain ⟨n, hplain, rfl, -⟩ := h
  obtain ⟨c, rest, hwhole⟩ := List.exists_cons_of_ne_nil hplain.nonempty
  rw [hplain.text_eq, hwhole]
  exact ⟨c, _, rfl, hplain.whole c (by simp [hwhole])⟩

theorem of_mem (h : Writes text q) {c : Char} (hc : c ∈ text) : c.isDigit = true ∨ c = '.' := by
  obtain ⟨n, hplain, rfl, -⟩ := h
  rw [hplain.text_eq, List.mem_append] at hc
  rcases hc with hwhole | hfraction
  · exact .inl (hplain.whole c hwhole)
  · cases hdigits : n.fraction with
    | none => simp [hdigits] at hfraction
    | some digits =>
      rw [hdigits, Option.elim_some, List.mem_cons] at hfraction
      refine hfraction.symm.imp_left fun hc => hplain.fraction c ?_
      simpa [hdigits] using hc

/-- A plain numeral is read as the number that it writes, rounded. -/
theorem readDouble? (h : Writes text q) :
    ∃ x, Number.readDouble? text = some x ∧ IsRounded q x := by
  obtain ⟨n, hplain, rfl, rfl⟩ := h
  exact ⟨n.decimal.toFloat, (hplain.isProper _).readDouble?_text, isRounded_toFloat _ _⟩

end Writes

def wholeNumeral (n : ℕ) : Numeral := ⟨decimalText n, none, none⟩

theorem isPlain_wholeNumeral (n : ℕ) : (wholeNumeral n).IsPlain where
  whole _ := isDigit_of_mem_decimalText
  nonempty := by
    obtain ⟨c, rest, hcons, -⟩ := exists_decimalText_eq_cons n
    simp [wholeNumeral, hcons]
  fraction := nofun
  exponent := rfl

theorem text_wholeNumeral (n : ℕ) : (wholeNumeral n).text = decimalText n := by
  rw [(isPlain_wholeNumeral n).text_eq]
  exact List.append_nil _

theorem value_wholeNumeral (n : ℕ) : (wholeNumeral n).value = n := by
  rw [(isPlain_wholeNumeral n).value_eq]
  simp [wholeNumeral, decimalValue_decimalText]

def fixedNumeral (digits places : ℕ) : Numeral where
  whole := decimalText (digits / 10 ^ places)
  fraction := some (List.replicate (places - (decimalText (digits % 10 ^ places)).length) '0' ++
    decimalText (digits % 10 ^ places))
  exponent := none

theorem isPlain_fixedNumeral (digits places : ℕ) : (fixedNumeral digits places).IsPlain where
  whole _ := isDigit_of_mem_decimalText
  nonempty := by
    obtain ⟨c, rest, hcons, -⟩ := exists_decimalText_eq_cons (digits / 10 ^ places)
    simp [fixedNumeral, hcons]
  fraction c hc := by
    rcases List.mem_append.mp hc with hzero | hdigit
    · rw [List.eq_of_mem_replicate hzero]
      rfl
    · exact isDigit_of_mem_decimalText hdigit
  exponent := rfl

/-- All places are written, and they write what is left beyond the unit. -/
theorem exists_fraction_fixedNumeral (digits : ℕ) {places : ℕ} (hplaces : 0 < places) :
    ∃ fraction, (fixedNumeral digits places).fraction = some fraction ∧
      fraction.length = places ∧ decimalValue fraction = digits % 10 ^ places := by
  have hunit : 0 < 10 ^ places := by positivity
  have hlength := length_decimalText_le hplaces (Nat.mod_lt digits hunit)
  refine ⟨_, rfl, ?_, ?_⟩
  · rw [List.length_append, List.length_replicate, Nat.sub_add_cancel hlength]
  · rw [decimalValue_append, decimalValue_replicate_zero, decimalValue_decimalText, zero_mul,
      zero_add]

theorem value_fixedNumeral (digits : ℕ) {places : ℕ} (hplaces : 0 < places) :
    (fixedNumeral digits places).value = digits * 10 ^ (-places : ℤ) := by
  obtain ⟨fraction, hfraction, hlength, hvalue⟩ := exists_fraction_fixedNumeral digits hplaces
  have hwhole : (fixedNumeral digits places).whole = decimalText (digits / 10 ^ places) := rfl
  have hparts := Nat.div_add_mod' digits (10 ^ places)
  rw [(isPlain_fixedNumeral digits places).value_eq, hfraction, Option.getD_some, hwhole,
    decimalValue_append, decimalValue_decimalText, hlength, hvalue, hparts, zpow_neg, zpow_natCast,
    div_eq_mul_inv]

theorem magnitudeText_negSucc (digits places : ℕ) :
    Decimal.magnitudeText digits (.negSucc places) = (fixedNumeral digits (places + 1)).text := by
  rw [(isPlain_fixedNumeral digits (places + 1)).text_eq]
  rfl

end DeskCalculator.Number
