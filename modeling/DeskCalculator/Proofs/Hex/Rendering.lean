import DeskCalculator.Proofs.Hex.Arithmetic
import DeskCalculator.Proofs.Hex.Spelling
import Mathlib.Data.Int.ModEq

/-!
Hexadecimal results read back. A result is shown as one literal, in capital letters and without
zeros in front, so evaluating what is shown gives the number that these digits write. For a result
that is not negative this is the result. A negative one is shown by its two's complement, the only
number below `2 ^ 32` that is congruent to it, however far below zero it lies.
-/
namespace DeskCalculator.Hex

open Number Reading

def capitalDigits : List Char :=
  ['0', '1', '2', '3', '4', '5', '6', '7', '8', '9', 'A', 'B', 'C', 'D', 'E', 'F']

theorem digitChar_mem_capitalDigits {d : ℕ} (h : d < 16) : digitChar d ∈ capitalDigits := by
  revert d
  decide

theorem isHexDigit_of_mem_capitalDigits {c : Char} (h : c ∈ capitalDigits) :
    isHexDigit c = true := by
  have hall : capitalDigits.all isHexDigit = true := by decide
  exact List.all_eq_true.mp hall c h

theorem mem_capitalDigits_of_mem_radixText {n : ℕ} {c : Char} (h : c ∈ radixText 16 n) :
    c ∈ capitalDigits := by
  obtain ⟨d, hd, rfl⟩ := exists_of_mem_radixText (by omega) h
  exact digitChar_mem_capitalDigits hd

theorem isRun_radixText (n : ℕ) : IsRun isHexDigit isHexDigit (radixText 16 n) :=
  isRun_iff.mpr ⟨radixText_ne_nil (by omega) n, fun _ hc =>
    isHexDigit_of_mem_capitalDigits (mem_capitalDigits_of_mem_radixText hc)⟩

/-- A text that is one literal is evaluated to the number that its digits write, if that fits. -/
theorem evaluate_of_isRun {word : List Char} (h : IsRun isHexDigit isHexDigit word) :
    evaluate (String.ofList word) =
      checkRange (hexValue word) (.literalTooLarge (String.ofList word)) := by
  have hspells : Token.Spells (.literal (String.ofList word)) word := .inr ⟨rfl, h⟩
  obtain ⟨span, hscan⟩ := Token.isLegible.exists_scan_of_spells hspells
  have hsum : IsSum (scan Token (String.ofList word)) (.literal (String.ofList word) span) := by
    rw [hscan]
    exact .product (.operand (.literal _ span))
  rw [evaluate_of_isSum hsum, value, String.toList_ofList]

theorem evaluate_radixText {n : ℕ} (hn : InRange n) :
    evaluate (String.ofList (radixText 16 n)) = .ok (n : ℤ) := by
  rw [evaluate_of_isRun (isRun_radixText n), hexValue_radixText]
  exact if_pos hn

theorem twosComplement_cast (v : ℤ) : (twosComplement v : ℤ) = v % 2 ^ 32 := by
  unfold twosComplement
  omega

/-- The two's complement is the only number of 32 bits that is congruent to the number. -/
theorem eq_twosComplement_iff (v u : ℤ) :
    u = twosComplement v ↔ 0 ≤ u ∧ u < 2 ^ 32 ∧ u ≡ v [ZMOD 2 ^ 32] := by
  rw [twosComplement_cast, Int.ModEq]
  constructor
  · intro h
    omega
  · intro h
    omega

/-- What is shown for a result of 64 bits is evaluated to the result itself if that is not negative,
and otherwise to the only number of 32 bits that is congruent to it. It is written in capital
letters, and no zero leads it. -/
theorem evaluate_hexText {v : ℤ} (hv : InRange v) :
    (∃ w, evaluate (hexText v) = .ok w ∧ (0 ≤ v → w = v) ∧
      (v < 0 → ∀ u : ℤ, u = w ↔ 0 ≤ u ∧ u < 2 ^ 32 ∧ u ≡ v [ZMOD 2 ^ 32])) ∧
    (∀ c ∈ (hexText v).toList, c ∈ capitalDigits) ∧
    (hexText v = "0" ∨ ∃ c rest, (hexText v).toList = c :: rest ∧ c ≠ '0') := by
  have hlist : ∀ n, (String.ofList (radixText 16 n)).toList = radixText 16 n :=
    fun n => String.toList_ofList
  unfold hexText
  rw [hlist]
  refine ⟨?_, fun c hc => mem_capitalDigits_of_mem_radixText hc, ?_⟩
  · by_cases hneg : v < 0
    · have hrange : InRange (twosComplement v) := by
        have hpattern := (eq_twosComplement_iff v _).mp rfl
        unfold InRange
        omega
      rw [if_pos hneg]
      exact ⟨twosComplement v, evaluate_radixText hrange, fun hnot => absurd hneg hnot.not_gt,
        fun _ u => eq_twosComplement_iff v u⟩
    · have hvalue : (v.toNat : ℤ) = v := Int.toNat_of_nonneg (not_lt.mp hneg)
      rw [if_neg hneg]
      refine ⟨v.toNat, evaluate_radixText (by rwa [hvalue]), fun _ => hvalue, ?_⟩
      intro hneg'
      exact absurd hneg' hneg
  · generalize (if v < 0 then twosComplement v else v.toNat) = n
    rcases @radixText_cases 16 (by omega) (by omega) n with hzero | hdigit
    · exact .inl (congrArg String.ofList hzero)
    · exact .inr hdigit

/-- One below the least number of 32 bits, and the least number of 64 bits. -/
theorem evaluate_hexText_below_word :
    InRange (-0x100000001) ∧ hexText (-0x100000001) = "FFFFFFFF" ∧
      evaluate "FFFFFFFF" = .ok 0xFFFFFFFF ∧
      InRange (-0x8000000000000000) ∧ hexText (-0x8000000000000000) = "0" ∧
      evaluate "0" = .ok 0 := by
  have hbelow : InRange (-0x100000001) := by decide
  have hleast : InRange (-0x8000000000000000) := by decide
  have hbelowText : hexText (-0x100000001) = "FFFFFFFF" := by decide +kernel
  have hleastText : hexText (-0x8000000000000000) = "0" := by decide +kernel
  obtain ⟨⟨w, hw, -, hwrapped⟩, -⟩ := evaluate_hexText hbelow
  obtain ⟨⟨u, hu, -, hwrapped'⟩, -⟩ := evaluate_hexText hleast
  obtain rfl : 0xFFFFFFFF = w := (hwrapped (by decide) _).mpr (by decide)
  obtain rfl : 0 = u := (hwrapped' (by decide) _).mpr (by decide)
  rw [hbelowText] at hw
  rw [hleastText] at hu
  exact ⟨hbelow, hbelowText, hw, hleast, hleastText, hu⟩

end DeskCalculator.Hex
