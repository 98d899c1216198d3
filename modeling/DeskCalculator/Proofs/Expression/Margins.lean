import DeskCalculator.Proofs.Expression.Exponents
import DeskCalculator.Proofs.Expression.Spelling

/-!
White space on both sides of an expression. Separators there are neither digits nor signs, so they
do not reach into an exponent, and normalization passes them by; and they have no tokens. A
normalized expression therefore has the same tokens with them and without them. White space of any
other kind stays in the text as well, and is invalid there.
-/
namespace DeskCalculator.Text

/-- The white space that trimming takes away. -/
def margins (text : List Char) : List Char :=
  text.takeWhile isBlank ++ (trimFront text).reverse.takeWhile isBlank

theorem isBlank_of_mem_margins {text : List Char} {c : Char} (h : c ∈ margins text) :
    isBlank c = true :=
  (List.mem_append.mp h).elim (fun hc => List.mem_takeWhile_imp hc)
    fun hc => List.mem_takeWhile_imp hc

/-- A text is what is left of it after trimming, between its margins. -/
theorem exists_margins (text : List Char) : ∃ front behind, text = front ++ (trim text ++ behind) ∧
    ∀ c, c ∈ margins text ↔ c ∈ front ∨ c ∈ behind := by
  refine ⟨text.takeWhile isBlank, ((trimFront text).reverse.takeWhile isBlank).reverse, ?_, ?_⟩
  · have hbehind : trim text ++ ((trimFront text).reverse.takeWhile isBlank).reverse =
        trimFront text := by
      rw [trim, trimBack, dropTail, ← List.reverse_append, List.takeWhile_append_dropWhile,
        List.reverse_reverse]
    rw [hbehind, trimFront, List.takeWhile_append_dropWhile]
  · intro c
    rw [margins, List.mem_append, List.mem_reverse]

theorem trim_ne_nil {text : String} (h : isEmpty text = false) : trim text.toList ≠ [] := by
  intro hnil
  obtain ⟨front, behind, htext, hmem⟩ := exists_margins text.toList
  rw [hnil, List.nil_append] at htext
  have hblank : isEmpty text = true := by
    rw [isEmpty, List.all_eq_true, htext]
    exact fun c hc => isBlank_of_mem_margins ((hmem c).mpr (List.mem_append.mp hc))
  exact nomatch h.symm.trans hblank

theorem not_of_isSeparator {p : Char → Bool} (hp : [' ', '\t', '\n', '\x0c'].any p = false)
    {c : Char} (h : isSeparator c = true) : p c = false := by
  rw [← Bool.not_eq_true]
  intro hc
  exact absurd (Reading.not_isSeparator_of hp hc) (by simp [h])

end DeskCalculator.Text

namespace DeskCalculator.Expression

open Reading Text

theorem expandPower_append (text other : List Char) :
    expandPower (text ++ other) = expandPower text ++ expandPower other := by
  induction text with
  | nil => rfl
  | cons c rest ih =>
    rw [List.cons_append, expandPower, expandPower, ih]
    split_ifs <;> rfl

section

variable {behind : List Char}

theorem startsExponent_append (h : startsExponent behind = false) (text : List Char) :
    startsExponent (text ++ behind) = startsExponent text := by
  have hhead : behind.head?.any isDecimalDigit = false := by
    cases behind with
    | nil => rfl
    | cons c rest => exact (Bool.or_eq_false_iff.mp h).1
  cases text with
  | nil => exact h
  | cons c rest =>
    cases rest with
    | nil => simp [startsExponent, hhead]
    | cons d others => rfl

/-- What begins no exponent and holds no `E` does not matter to what stands in front of it. -/
theorem lowerExponentsFrom_append (hmark : 'E' ∉ behind) (h : startsExponent behind = false)
    (place : ExponentPlace) (text : List Char) :
    lowerExponentsFrom place (text ++ behind) = lowerExponentsFrom place text ++ behind := by
  induction text generalizing place with
  | nil =>
    rw [List.nil_append, lowerExponentsFrom_of_not_mem place hmark]
    simp [lowerExponentsFrom]
  | cons c rest ih =>
    have hstarts := startsExponent_append h rest
    have hwritten : place.written c (rest ++ behind) = place.written c rest := by
      simp only [ExponentPlace.written, hstarts]
    have hnext : place.next c (rest ++ behind) = place.next c rest := by
      cases place with
      | afterDigit => simp only [ExponentPlace.next, hstarts]
      | inExponent | apart => rfl
    rw [List.cons_append, lowerExponentsFrom_cons, lowerExponentsFrom_cons, hwritten, hnext, ih,
      List.cons_append]

end

/-- No exponent begins with separators. -/
theorem startsExponent_of_isSeparator {blanks : List Char}
    (h : ∀ c ∈ blanks, isSeparator c = true) : startsExponent blanks = false := by
  cases blanks with
  | nil => rfl
  | cons c rest =>
    have hc : isSeparator c = true := h c (List.mem_cons_self ..)
    have hdigit : isDecimalDigit c = false := not_of_isSeparator (by decide) hc
    have hsign : (c == '+' || c == '-') = false :=
      not_of_isSeparator (p := fun c => c == '+' || c == '-') (by decide) hc
    rw [startsExponent, hdigit, hsign, Bool.false_and, Bool.or_false]

theorem apart_behind {front : List Char} (h : ∀ c ∈ front, isDecimalDigit c = false)
    (rest : List Char) : ExponentPlace.apart.behind front rest = .apart := by
  induction front with
  | nil => rfl
  | cons c front ih =>
    obtain ⟨hc, hfront⟩ := List.forall_mem_cons.mp h
    rw [ExponentPlace.behind]
    simpa [ExponentPlace.next, hc] using ih hfront

/-- Separators around a text stay where they are. -/
theorem normalizeChars_append_separators {front behind : List Char}
    (hfront : ∀ c ∈ front, isSeparator c = true) (hbehind : ∀ c ∈ behind, isSeparator c = true)
    (text : List Char) :
    normalizeChars (front ++ (text ++ behind)) = front ++ (normalizeChars text ++ behind) := by
  have hnone : ∀ {blanks : List Char} {c : Char}, (∀ c ∈ blanks, isSeparator c = true) →
      isSeparator c = false → c ∉ blanks :=
    fun hblanks hc hmem => absurd (hblanks _ hmem) (by simp [hc])
  have hstarts : startsExponent behind = false := startsExponent_of_isSeparator hbehind
  have hapart : ∀ rest, ExponentPlace.apart.behind front rest = .apart :=
    apart_behind fun c hc => not_of_isSeparator (by decide) (hfront c hc)
  rw [normalizeChars, expandPower_append, expandPower_append,
    expandPower_eq_self (hnone hfront rfl), expandPower_eq_self (hnone hbehind rfl), lowerExponents,
    lowerExponentsFrom_append_of_not_mem _ (hnone hfront rfl), hapart,
    lowerExponentsFrom_append (hnone hbehind rfl) hstarts]
  rfl

theorem toList_normalize (text : String) :
    (normalize text).toList = normalizeChars text.toList := by
  rw [normalize, String.toList_ofList]

/-- With separators around it an expression has the tokens that it has without them. -/
theorem tokensOf_normalizeChars_trim {line : List Char}
    (h : ∀ c ∈ margins line, isSeparator c = true) :
    tokensOf Token (normalizeChars line) = tokensOf Token (normalizeChars (trim line)) := by
  obtain ⟨front, behind, hline, hmem⟩ := exists_margins line
  have hfront : ∀ c ∈ front, isSeparator c = true := fun c hc => h c ((hmem c).mpr (.inl hc))
  have hbehind : ∀ c ∈ behind, isSeparator c = true := fun c hc => h c ((hmem c).mpr (.inr hc))
  conv_lhs => rw [hline, normalizeChars_append_separators hfront hbehind,
    tokensOf_append_separators hfront]
  exact Token.isLegible.tokensOf_append_gap _ ⟨behind, hbehind⟩

theorem mem_lowerExponentsFrom {text : List Char} {c : Char} (h : c ∈ text) (hmark : c ≠ 'E')
    (place : ExponentPlace) : c ∈ lowerExponentsFrom place text := by
  induction text generalizing place with
  | nil => exact absurd h List.not_mem_nil
  | cons d rest ih =>
    rw [lowerExponentsFrom_cons, List.mem_cons]
    rcases List.mem_cons.mp h with rfl | hrest
    · exact .inl (if_neg fun hlowered => hmark hlowered.1).symm
    · exact .inr (ih hrest _)

theorem mem_expandPower {text : List Char} {c : Char} (h : c ∈ text) (hpower : c ≠ '^') :
    c ∈ expandPower text := by
  induction text with
  | nil => exact absurd h List.not_mem_nil
  | cons d rest ih =>
    rw [expandPower]
    rcases List.mem_cons.mp h with rfl | hrest
    · simp [hpower]
    · split_ifs <;> simp [ih hrest]

/-- Normalization takes no other characters away than those that it replaces. -/
theorem mem_normalizeChars {text : List Char} {c : Char} (h : c ∈ text) (hpower : c ≠ '^')
    (hmark : c ≠ 'E') : c ∈ normalizeChars text :=
  mem_lowerExponentsFrom (mem_expandPower h hpower) hmark _

end DeskCalculator.Expression
