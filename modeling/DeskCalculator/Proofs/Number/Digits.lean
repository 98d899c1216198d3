import DeskCalculator.Number.Radix
import Mathlib.Data.Nat.Notation
import Mathlib.Tactic.ByContra
import Mathlib.Tactic.Tauto

/-!
Digits as characters. The text of a number in a base consists of digits of the base, begins with a
zero only if the number is zero, and reads back as the number.
-/
namespace DeskCalculator.Number

theorem lt_base_of_mem_digits {base value d : ℕ} (hb : 2 ≤ base) (h : d ∈ digits base value) :
    d < base := by
  fun_induction digits base value with
  | case1 value hvalue ih =>
    rcases List.mem_cons.mp h with rfl | hrest
    · exact Nat.mod_lt _ (by omega)
    · exact ih hrest
  | case2 value hvalue => simp at h

theorem digits_ne_nil {base value : ℕ} (hb : 2 ≤ base) (hvalue : value ≠ 0) :
    digits base value ≠ [] := by
  rw [digits, dif_pos ⟨hb, by omega⟩]
  simp

/-- The most significant digit of a positive number is not zero. -/
theorem getLast_digits_ne_zero {base value : ℕ} (hb : 2 ≤ base) (h : digits base value ≠ []) :
    (digits base value).getLast h ≠ 0 := by
  induction value using Nat.strongRecOn with
  | ind value ih =>
    have hvalue : 2 ≤ base ∧ 0 < value := by
      by_contra hzero
      rw [digits, dif_neg hzero] at h
      exact h rfl
    have hdigits : digits base value = value % base :: digits base (value / base) := by
      rw [digits, dif_pos hvalue]
    have hlt : value / base < value := Nat.div_lt_self hvalue.2 hvalue.1
    by_cases hrest : digits base (value / base) = []
    · have hsmall : value / base = 0 := by
        by_contra hne
        exact digits_ne_nil hb hne hrest
      have hmod := Nat.mod_add_div value base
      simp only [hdigits, hrest, List.getLast_singleton]
      rw [hsmall, Nat.mul_zero] at hmod
      omega
    · simp only [hdigits, List.getLast_cons hrest]
      exact ih _ hlt hrest

theorem isDigit_digitChar {d : ℕ} (h : d < 10) : (digitChar d).isDigit = true := by
  revert d
  decide

theorem digitChar_ne_zero {d : ℕ} (h : d < 16) (hd : d ≠ 0) : digitChar d ≠ '0' := by
  revert d
  decide

section Radix

variable {base : ℕ} (hb : 2 ≤ base)
include hb

/-- Text in a base reads back by any function that knows the digits of the base. -/
theorem foldl_radixText {valueOf : Char → ℕ} (hvalue : ∀ d < base, valueOf (digitChar d) = d)
    (n : ℕ) : (radixText base n).foldl (fun acc c => base * acc + valueOf c) 0 = n := by
  unfold radixText
  by_cases hn : n = 0
  · have hzero : valueOf '0' = 0 := hvalue 0 (by omega)
    simp [hn, hzero]
  · have hall : ∀ d ∈ digits base n, d < base := fun d hd => lt_base_of_mem_digits hb hd
    rw [if_neg hn, List.map_reverse, List.foldl_reverse, List.foldr_map]
    conv_rhs => rw [← ofDigits_digits base n hb]
    generalize digits base n = ds at hall
    induction ds with
    | nil => rfl
    | cons d rest ih =>
      obtain ⟨hd, hrest⟩ := List.forall_mem_cons.mp hall
      rw [List.foldr_cons, ih hrest, hvalue d hd, ofDigits, Nat.add_comm]

theorem exists_of_mem_radixText {n : ℕ} {c : Char} (h : c ∈ radixText base n) :
    ∃ d < base, c = digitChar d := by
  unfold radixText at h
  by_cases hn : n = 0
  · rw [if_pos hn, List.mem_singleton] at h
    exact ⟨0, by omega, h⟩
  · rw [if_neg hn] at h
    obtain ⟨d, hd, rfl⟩ := List.mem_map.mp h
    exact ⟨d, lt_base_of_mem_digits hb (List.mem_reverse.mp hd), rfl⟩

theorem radixText_ne_nil (n : ℕ) : radixText base n ≠ [] := by
  unfold radixText
  by_cases hn : n = 0
  · simp [hn]
  · simp [hn, digits_ne_nil hb hn]

/-- Text in a base is the digit zero, or it begins with another digit. -/
theorem radixText_cases (hlast : base ≤ 16) (n : ℕ) :
    radixText base n = ['0'] ∨ ∃ c rest, radixText base n = c :: rest ∧ c ≠ '0' := by
  unfold radixText
  by_cases hn : n = 0
  · exact .inl (if_pos hn)
  · right
    have hne : digits base n ≠ [] := digits_ne_nil hb hn
    have hlt := lt_base_of_mem_digits hb (List.getLast_mem hne)
    have hsplit := List.dropLast_concat_getLast hne
    have hreverse : (digits base n).reverse =
        (digits base n).getLast hne :: (digits base n).dropLast.reverse := by
      conv_lhs => rw [← hsplit]
      rw [List.reverse_append, List.reverse_singleton, List.singleton_append]
    refine ⟨digitChar ((digits base n).getLast hne), (digits base n).dropLast.reverse.map digitChar,
      ?_, digitChar_ne_zero (by omega) (getLast_digits_ne_zero hb hne)⟩
    rw [if_neg hn, hreverse, List.map_cons]

end Radix

/-- Decimal text reads back. -/
theorem decimalValue_decimalText (n : ℕ) : decimalValue (decimalText n) = n := by
  have hvalue : ∀ d < 10, (digitChar d).toNat - 48 = d := by decide
  exact foldl_radixText (by omega) hvalue n

theorem isDigit_of_mem_decimalText {n : ℕ} {c : Char} (h : c ∈ decimalText n) :
    c.isDigit = true := by
  obtain ⟨d, hd, rfl⟩ := exists_of_mem_radixText (by omega) h
  exact isDigit_digitChar hd

theorem decimalText_cases (n : ℕ) :
    decimalText n = ['0'] ∨ ∃ c rest, decimalText n = c :: rest ∧ c ≠ '0' :=
  radixText_cases (by omega) (by omega) n

/-- Hexadecimal text reads back. -/
theorem hexValue_radixText (n : ℕ) : hexValue (radixText 16 n) = n := by
  have hvalue : ∀ d < 16, (hexDigit? (digitChar d)).getD 0 = d := by decide
  exact foldl_radixText (by omega) hvalue n

theorem exists_decimalText_eq_cons (n : ℕ) :
    ∃ c rest, decimalText n = c :: rest ∧ c.isDigit = true := by
  obtain ⟨c, rest, hcons⟩ : ∃ c rest, decimalText n = c :: rest :=
    List.exists_cons_of_ne_nil (radixText_ne_nil (by omega) n)
  refine ⟨c, rest, hcons, isDigit_of_mem_decimalText (n := n) ?_⟩
  rw [hcons]
  exact List.mem_cons_self ..

theorem isHexDigit_iff (c : Char) : isHexDigit c = true ↔
    (48 ≤ c.toNat ∧ c.toNat ≤ 57) ∨ (97 ≤ c.toNat ∧ c.toNat ≤ 102) ∨
      (65 ≤ c.toNat ∧ c.toNat ≤ 70) := by
  have hdigit : ('0' ≤ c ∧ c ≤ '9') ↔ 48 ≤ c.toNat ∧ c.toNat ≤ 57 := Iff.rfl
  have hsmall : ('a' ≤ c ∧ c ≤ 'f') ↔ 97 ≤ c.toNat ∧ c.toNat ≤ 102 := Iff.rfl
  have hcapital : ('A' ≤ c ∧ c ≤ 'F') ↔ 65 ≤ c.toNat ∧ c.toNat ≤ 70 := Iff.rfl
  unfold isHexDigit hexDigit?
  simp only [hdigit, hsmall, hcapital]
  split
  · next h => simp [h]
  · next h =>
    split
    · next h' => simp [h']
    · next h' =>
      split
      · next h'' => simp [h'']
      · next h'' => simp only [Option.isSome_none, Bool.false_eq_true, false_iff]; tauto

end DeskCalculator.Number
