import DeskCalculator.Expression.Keystroke
import DeskCalculator.Text.Blank
import Mathlib.Data.List.Chain

/-!
What the two replacements of normalization leave alone. A text without `^` in which no `E` stands
directly behind a digit stays as it is, and a text is blank after them just when it was blank
before.
-/
namespace DeskCalculator.Expression

theorem expandPower_eq_self {text : List Char} (h : '^' ∉ text) : expandPower text = text := by
  induction text with
  | nil => rfl
  | cons c rest ih =>
    rw [List.mem_cons, not_or] at h
    rw [expandPower, if_neg (Ne.symm h.1), ih h.2]

/-- Whether two characters in a row are not a digit with an `E` behind it. -/
def IsApart (c d : Char) : Prop := Text.isDecimalDigit c = true → d ≠ 'E'

/-- Where no `E` stands directly behind a digit, there is no exponent to be lowered. -/
theorem lowerExponentsFrom_of_isChain {text : List Char} (h : text.IsChain IsApart)
    {place : ExponentPlace} (hplace : place = .afterDigit → text.head? ≠ some 'E') :
    lowerExponentsFrom place text = text := by
  fun_induction lowerExponentsFrom place text with
  | case1 => rfl
  | case2 c rest ih =>
    rw [ih h.tail (by split <;> nofun)]
  | case3 rest => exact absurd rfl (hplace rfl)
  | case4 rest => exact absurd rfl (hplace rfl)
  | case5 place c rest _ _ ih =>
    rw [ih h.tail]
    intro hdigit hhead
    obtain ⟨others, rfl⟩ := List.head?_eq_some_iff.mp hhead
    have hapart : IsApart c 'E' := (List.isChain_cons_cons.mp h).1
    by_cases hc : Text.isDecimalDigit c = true
    · exact hapart hc rfl
    · rw [if_neg hc] at hdigit
      exact nomatch hdigit

theorem isChain_isApart_of_not_mem {text : List Char} (h : 'E' ∉ text) : text.IsChain IsApart := by
  apply List.Pairwise.isChain
  apply List.pairwise_of_forall_mem_list
  intro c _ d hd _ heq
  exact h (heq ▸ hd)

theorem isChain_isApart_of_not_isDecimalDigit {text : List Char}
    (h : ∀ c ∈ text, Text.isDecimalDigit c = false) : text.IsChain IsApart := by
  apply List.Pairwise.isChain
  apply List.pairwise_of_forall_mem_list
  intro c hc _ _ hdigit
  exact nomatch (h c hc).symm.trans hdigit

theorem normalize_of_isChain {text : String} (hpower : '^' ∉ text.toList)
    (h : text.toList.IsChain IsApart) : normalize text = text := by
  have hlower : lowerExponentsFrom .apart text.toList = text.toList :=
    lowerExponentsFrom_of_isChain h nofun
  rw [normalize, normalizeChars, expandPower_eq_self hpower, lowerExponents, hlower,
    String.ofList_toList]

theorem normalize_eq_self {text : String} (hpower : '^' ∉ text.toList)
    (hexponent : 'E' ∉ text.toList) : normalize text = text :=
  normalize_of_isChain hpower (isChain_isApart_of_not_mem hexponent)

/-- Whether a text is blank is not changed by writing `**` for `^`. -/
theorem all_isBlank_expandPower (text : List Char) :
    (expandPower text).all Text.isBlank = text.all Text.isBlank := by
  induction text with
  | nil => rfl
  | cons c rest ih =>
    rw [expandPower]
    by_cases hc : c = '^'
    · subst hc
      rfl
    · rw [if_neg hc, List.all_cons, List.all_cons, ih]

theorem all_isBlank_lowerExponentsFrom (place : ExponentPlace) (text : List Char) :
    (lowerExponentsFrom place text).all Text.isBlank = text.all Text.isBlank := by
  fun_induction lowerExponentsFrom place text with
  | case1 => rfl
  | case2 c rest ih => rw [List.all_cons, List.all_cons, ih]
  | case3 rest => rfl
  | case4 rest => rfl
  | case5 place c rest _ _ ih => rw [List.all_cons, List.all_cons, ih]

/-- Neither of the two replacements makes a blank or takes one away. -/
theorem isEmpty_normalize (text : String) : Text.isEmpty (normalize text) = Text.isEmpty text := by
  unfold Text.isEmpty normalize
  rw [String.toList_ofList, normalizeChars, lowerExponents, all_isBlank_lowerExponentsFrom,
    all_isBlank_expandPower]

end DeskCalculator.Expression
