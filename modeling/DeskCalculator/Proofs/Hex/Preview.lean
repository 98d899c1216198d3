import DeskCalculator.Proofs.Hex.Rendering

/-!
The preview of an operand and its evaluation. Both read a run of hexadecimal digits as the number
that it writes, however long it is and whatever zeros lead it. Evaluation calculates with a sign and
refuses what does not fit into 64 bits with one; the preview shows a word without a sign, which
reaches twice as far. So an operand that can be evaluated is always shown with its value, while one
that is shown may still be too large.
-/
namespace DeskCalculator.Hex

open Number Reading

section

variable {word : List Char}

theorem bne_space_of_mem_reverse (h : ' ' ∉ word) : ∀ c ∈ word.reverse, (c != ' ') = true := by
  intro c hc
  rw [bne_iff_ne]
  rintro rfl
  exact h (List.mem_reverse.mp hc)

theorem lastWord_eq_self (h : ' ' ∉ word) : lastWord word = word := by
  rw [lastWord, List.takeWhile_eq_self_iff.mpr (bne_space_of_mem_reverse h), List.reverse_reverse]

/-- What stands in front of the last space does not matter. -/
theorem lastWord_append_space (front : List Char) (h : ' ' ∉ word) :
    lastWord (front ++ ' ' :: word) = word := by
  have hreverse : (front ++ ' ' :: word).reverse = word.reverse ++ ' ' :: front.reverse := by simp
  rw [lastWord, hreverse, List.takeWhile_append_of_pos (bne_space_of_mem_reverse h)]
  simp

/-- Behind a space no operand is being typed yet. -/
theorem preview_append_space (text : String) : preview (text ++ " ") = none := by
  have hword : lastWord (text ++ " ").toList = [] := by
    rw [String.toList_append]
    exact lastWord_append_space text.toList List.not_mem_nil
  simp only [preview, hword]
  rfl

theorem lastWord_of_isRun (h : IsRun isHexDigit isHexDigit word) : lastWord word = word :=
  lastWord_eq_self fun hspace => nomatch (isRun_iff.mp h).2 _ hspace

/-- The preview of a run of digits is the number that it writes, if a word without sign holds it. -/
theorem preview_of_isRun (h : IsRun isHexDigit isHexDigit word) :
    preview (String.ofList word) =
      if hexValue word < 0x10000000000000000 then some (hexValue word) else none := by
  obtain ⟨hne, hall⟩ := isRun_iff.mp h
  have hempty : word.isEmpty = false := List.isEmpty_eq_false_iff.mpr hne
  have hdigits : word.all isHexDigit = true := List.all_eq_true.mpr hall
  unfold preview
  simp only [String.toList_ofList, lastWord_of_isRun h, hempty, hdigits, Bool.not_true, Bool.or_false,
    Bool.false_eq_true, if_false]

theorem preview_eq_some_iff (h : IsRun isHexDigit isHexDigit word) (n : ℕ) :
    preview (String.ofList word) = some n ↔ hexValue word = n ∧ n < 2 ^ 64 := by
  rw [preview_of_isRun h, Option.ite_none_right_eq_some, Option.some.injEq]
  constructor
  · rintro ⟨hlt, rfl⟩
    exact ⟨rfl, hlt⟩
  · rintro ⟨rfl, hlt⟩
    exact ⟨hlt, rfl⟩

theorem inRange_natCast_iff (n : ℕ) : InRange n ↔ n < 2 ^ 63 := by
  unfold InRange
  omega

theorem evaluate_run_eq_ok_iff (h : IsRun isHexDigit isHexDigit word) (v : ℤ) :
    evaluate (String.ofList word) = .ok v ↔ hexValue word = v ∧ v < 2 ^ 63 := by
  rw [evaluate_of_isRun h, checkRange_eq_ok_iff, inRange_natCast_iff]
  constructor
  · rintro ⟨hlt, rfl⟩
    exact ⟨rfl, by exact_mod_cast hlt⟩
  · rintro ⟨rfl, hlt⟩
    exact ⟨by exact_mod_cast hlt, rfl⟩

theorem evaluate_run_of_le (h : IsRun isHexDigit isHexDigit word) (hlarge : 2 ^ 63 ≤ hexValue word) :
    evaluate (String.ofList word) = .error (.literalTooLarge (String.ofList word)) := by
  have hrange : ¬InRange (hexValue word) := by
    rw [inRange_natCast_iff]
    omega
  rw [evaluate_of_isRun h]
  exact if_neg hrange

end

/-- Preview and evaluation read a run of hexadecimal digits as the same number. The preview shows it
below `2 ^ 64`, and evaluation gives it below `2 ^ 63` and refuses it as too large otherwise. So what
can be evaluated is shown with its value, and the two agree unless the number lies between the two
bounds. -/
theorem preview_agrees_unless_unsigned {word : List Char} (h : IsRun isHexDigit isHexDigit word) :
    let text := String.ofList word
    (∀ n : ℕ, preview text = some n ↔ hexValue word = n ∧ n < 2 ^ 64) ∧
      (∀ v : ℤ, evaluate text = .ok v ↔ hexValue word = v ∧ v < 2 ^ 63) ∧
      (2 ^ 63 ≤ hexValue word → evaluate text = .error (.literalTooLarge text)) ∧
      (∀ n : ℕ, evaluate text = .ok (n : ℤ) → preview text = some n) ∧
      ((∀ n : ℕ, preview text = some n ↔ evaluate text = .ok (n : ℤ)) ↔
        hexValue word < 2 ^ 63 ∨ 2 ^ 64 ≤ hexValue word) := by
  intro text
  have hpreview := preview_eq_some_iff h
  have hvalue := evaluate_run_eq_ok_iff h
  refine ⟨hpreview, hvalue, evaluate_run_of_le h, ?_, ?_⟩
  · intro n hevaluate
    have hbound := (hvalue n).mp hevaluate
    exact (hpreview n).mpr (by omega)
  · constructor
    · intro hagree
      by_contra hbetween
      have hshown := (hpreview (hexValue word)).mpr ⟨rfl, by omega⟩
      have hfits := ((hvalue (hexValue word)).mp ((hagree _).mp hshown)).2
      omega
    · intro houtside n
      rw [hpreview, hvalue]
      omega

/-- Small letters behind zeros, just below the bound of evaluation. -/
theorem preview_agrees_unless_unsigned_at_greatest :
    let word := "007fffffffffffFFFF".toList
    IsRun isHexDigit isHexDigit word ∧ hexValue word = 2 ^ 63 - 1 ∧
      preview "007fffffffffffFFFF" = some (2 ^ 63 - 1) ∧
      evaluate "007fffffffffffFFFF" = .ok (2 ^ 63 - 1) := by
  intro word
  have hrun : IsRun isHexDigit isHexDigit word :=
    ⟨'0', _, rfl, rfl, List.all_eq_true.mp (by decide)⟩
  have hvalue : hexValue word = 2 ^ 63 - 1 := by decide
  obtain ⟨hpreview, hevaluate, -⟩ := preview_agrees_unless_unsigned hrun
  exact ⟨hrun, hvalue, (hpreview _).mpr ⟨hvalue, by decide⟩,
    (hevaluate _).mpr ⟨by rw [hvalue]; decide, by decide⟩⟩

/-- The first number beyond the range of evaluation is shown as if it could be evaluated. -/
theorem preview_shows_what_is_too_large :
    preview "8000000000000000" = some (2 ^ 63) ∧
      evaluate "8000000000000000" = .error (.literalTooLarge "8000000000000000") ∧
      ¬∀ word, IsRun isHexDigit isHexDigit word → ∀ n : ℕ,
        preview (String.ofList word) = some n ↔ evaluate (String.ofList word) = .ok (n : ℤ) := by
  have hrun : IsRun isHexDigit isHexDigit "8000000000000000".toList :=
    ⟨'8', _, rfl, rfl, List.all_eq_true.mp (by decide)⟩
  have hvalue : hexValue "8000000000000000".toList = 2 ^ 63 := by decide
  have hshown : preview "8000000000000000" = some (2 ^ 63) :=
    (preview_eq_some_iff hrun _).mpr ⟨hvalue, by decide⟩
  have hrefused : evaluate "8000000000000000" = .error (.literalTooLarge "8000000000000000") :=
    evaluate_run_of_le hrun hvalue.ge
  refine ⟨hshown, hrefused, fun hagree => ?_⟩
  exact nomatch hrefused.symm.trans ((hagree _ hrun _).mp hshown)

end DeskCalculator.Hex
