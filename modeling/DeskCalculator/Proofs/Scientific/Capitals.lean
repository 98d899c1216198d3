import DeskCalculator.Proofs.Expression.Exponents
import DeskCalculator.Proofs.Scientific.Normalization

/-!
Capital letters in front of exponents. Numbers are read with a small `e`, and normalization lowers a
capital one that stands directly behind a digit. The mantissa of a number ends with a digit, except
where its point has no digits behind it; then the capital letter stays, begins a name, and a name
cannot follow a number.
-/
namespace DeskCalculator.Number

open Expression (StandsBetweenDigits startsExponent)

theorem any_getLast?_of_isDigit {digits : List Char} (h : ∀ c ∈ digits, c.isDigit = true)
    (hne : digits ≠ []) : digits.getLast?.any Text.isDecimalDigit = true := by
  rw [List.getLast?_eq_some_getLast hne, Option.any_some]
  exact Text.isDecimalDigit_of_isDigit (h _ (List.getLast_mem hne))

theorem ExponentPart.IsProper.startsExponent {isMark : Char → Bool} {e : ExponentPart}
    (h : e.IsProper isMark) : startsExponent (e.sign.toList ++ e.digits) = true := by
  obtain ⟨d, others, hdigits⟩ := List.exists_cons_of_ne_nil h.nonempty
  have hd : Text.isDecimalDigit d = true :=
    Text.isDecimalDigit_of_isDigit (h.digits d (by simp [hdigits]))
  rw [hdigits]
  cases hsign : e.sign with
  | none => simp [Expression.startsExponent, hd]
  | some s =>
    have hs : s = '+' ∨ s = '-' := by simpa [isSign] using h.sign s hsign
    simp [Expression.startsExponent, hd, hs]

namespace Numeral

variable {isMark : Char → Bool} {n : Numeral} {e : ExponentPart}

def mantissa (n : Numeral) : Numeral := { n with exponent := none }

def withMark (mark : Char) (n : Numeral) : Numeral :=
  { n with exponent := n.exponent.map fun e => { e with mark := mark } }

theorem text_mantissa (n : Numeral) :
    n.mantissa.text = n.whole ++ n.fraction.elim [] ('.' :: ·) := by
  simp [text_eq, mantissa]

theorem text_withMark (h : n.exponent = some e) (mark : Char) :
    (n.withMark mark).text = n.mantissa.text ++ mark :: (e.sign.toList ++ e.digits) := by
  rw [text_mantissa, text_eq]
  simp [withMark, h, ExponentPart.text]

theorem withMark_self (h : n.exponent = some e) : n.withMark e.mark = n := by
  obtain ⟨whole, fraction, exponent⟩ := n
  obtain rfl : exponent = some e := h
  rfl

namespace IsProper

theorem withMark {isOther : Char → Bool} {mark : Char} (h : n.IsProper isMark)
    (hmark : isOther mark = true) : (n.withMark mark).IsProper isOther where
  whole := h.whole
  fraction := h.fraction
  nonempty := h.nonempty
  exponent := by
    intro other hother
    obtain ⟨e, he, rfl⟩ := Option.map_eq_some_iff.mp hother
    exact { h.exponent e he with mark := hmark }

theorem mantissa (h : n.IsProper isMark) : n.mantissa.IsProper isMark where
  whole := h.whole
  fraction := h.fraction
  nonempty := h.nonempty
  exponent := nofun

/-- A mantissa ends with a digit unless it ends with its point. -/
theorem any_getLast?_mantissa_iff (h : n.IsProper isMark) :
    n.mantissa.text.getLast?.any Text.isDecimalDigit = true ↔ n.fraction ≠ some [] := by
  obtain ⟨whole, fraction, exponent⟩ := n
  have hfraction : ∀ c ∈ fraction.getD [], c.isDigit = true := h.fraction
  cases fraction with
  | none =>
    have hwhole : whole ≠ [] := h.nonempty.resolve_right fun hnil => hnil rfl
    simpa [text_mantissa] using any_getLast?_of_isDigit h.whole hwhole
  | some digits =>
    by_cases hdigits : digits = []
    · subst hdigits
      simpa [text_mantissa] using (by decide : Text.isDecimalDigit '.' = false)
    · have hlast : (whole ++ '.' :: digits).getLast? = digits.getLast? := by
        rw [List.getLast?_append_cons, List.getLast?_cons, List.getLast?_eq_some_getLast hdigits]
        rfl
      simpa [text_mantissa, hlast, hdigits] using any_getLast?_of_isDigit hfraction hdigits

theorem standsBetweenDigits_iff (h : n.IsProper isMark) (he : n.exponent = some e) :
    StandsBetweenDigits n.mantissa.text (e.sign.toList ++ e.digits) ↔ n.fraction ≠ some [] := by
  rw [StandsBetweenDigits, h.any_getLast?_mantissa_iff]
  exact and_iff_left (h.exponent e he).startsExponent

end IsProper

end Numeral

end DeskCalculator.Number

namespace DeskCalculator.Expression

open Number Reading

variable {n : Numeral} {e : ExponentPart}

theorem normalize_numeral (hn : n.IsProper Token.isExponentMark) :
    normalize (String.ofList n.text) = String.ofList n.text := by
  have hnone : ∀ c : Char, ¬(c.isDigit = true ∨ c = '.' ∨ Token.isExponentMark c = true ∨
      isSign c = true) → c ∉ (String.ofList n.text).toList := by
    intro c hc hmem
    rw [String.toList_ofList] at hmem
    exact hc (hn.of_mem_text hmem)
  exact normalize_eq_self (hnone '^' (by decide)) (hnone 'E' (by decide))

/-- Normalization lowers a capital letter in front of an exponent unless a bare point stands before
it. -/
theorem normalize_withMark (hn : n.IsProper Token.isExponentMark) (he : n.exponent = some e) :
    normalize (String.ofList (n.withMark 'E').text) =
      if n.fraction ≠ some [] then String.ofList n.text
      else String.ofList (n.withMark 'E').text := by
  have hmark : e.mark = 'e' := by simpa [Token.isExponentMark] using (hn.exponent e he).mark
  have hsmall : n.text = n.mantissa.text ++ 'e' :: (e.sign.toList ++ e.digits) := by
    rw [← Numeral.text_withMark he, ← hmark, Numeral.withMark_self he]
  have hpower : '^' ∉ (n.withMark 'E').text := by
    intro hmem
    have hproper : (n.withMark 'E').IsProper isExponentMark := hn.withMark rfl
    exact absurd (hproper.of_mem_text hmem) (by decide)
  have hnone : 'E' ∉ n.text := Token.SpellsNumber.not_mem ⟨rfl, n, hn, rfl⟩
  rw [hsmall, List.mem_append, List.mem_cons] at hnone
  obtain ⟨hbefore, hbehind⟩ := not_or.mp hnone
  rw [normalize, normalizeChars, String.toList_ofList, expandPower_eq_self hpower,
    Numeral.text_withMark he, lowerExponents_of_single hbefore (not_or.mp hbehind).2]
  simp only [hn.standsBetweenDigits_iff he]
  split_ifs
  · rw [hsmall]
  · rfl

theorem exists_tokensOf_name {c : Char} (hc : Token.isNameStart c = true) (rest : List Char) :
    ∃ name others, tokensOf Token (c :: rest) = .identifier name :: others := by
  have hsplit := rest.takeWhile_append_dropWhile (p := Token.isNamePart)
  have hfront : Vocabulary.front? (τ := Token)
      (c :: (rest.takeWhile Token.isNamePart ++ rest.dropWhile Token.isNamePart)) =
        some (.identifier (String.ofList (c :: rest.takeWhile Token.isNamePart)),
          (rest.takeWhile Token.isNamePart).length + 1) := by
    rw [hsplit]
    simp [Vocabulary.front?, Token.front?, Token.name?, hc]
  have hsolid : Text.isSeparator c = false := not_isSeparator_of (p := Token.isNameStart) rfl hc
  have htokens := tokensOf_cons_append hsolid hfront
  rw [hsplit] at htokens
  exact ⟨_, _, htokens⟩

/-- A capital letter directly behind a number begins a name. -/
theorem tokensOf_number_mark (hn : n.IsProper Token.isExponentMark) (rest : List Char) :
    ∃ name others, tokensOf Token (n.text ++ 'E' :: rest) =
      .number (String.ofList n.text) :: .identifier name :: others := by
  have hmunch : IsMunch Token.Spells (n.text ++ 'E' :: rest) (.number (String.ofList n.text))
      n.text := by
    refine ⟨List.prefix_append _ _, .inr (.inl ⟨rfl, n, hn, rfl⟩), ?_⟩
    intro other longer hfront hlonger
    by_contra hlength
    have hmark : n.text ++ ['E'] <+: n.text ++ 'E' :: rest := ⟨rest, by simp⟩
    obtain ⟨behind, rfl⟩ :=
      List.prefix_of_prefix_length_le hmark hfront (by simp; omega)
    have hstart : BeginsWith Token.IsNumberStart (n.text ++ ['E'] ++ behind) := by
      obtain ⟨c, others, htext, hc⟩ := hn.exists_text_eq_cons
      exact ⟨c, others ++ ['E'] ++ behind, by simp [htext], hc⟩
    rcases hlonger with hname | hnumber | hfixed
    · exact hname.beginsWith.absurd hstart fun _ => Token.not_isNumberStart_of_isNameStart
    · exact hnumber.not_mem (by simp)
    · exact hfixed.beginsWith.absurd hstart fun _ hc => hc.2
  obtain ⟨name, others, hname⟩ := exists_tokensOf_name (c := 'E') rfl rest
  exact ⟨name, others, (Token.isLegible.tokensOf_of_isMunch hmunch).trans (congrArg _ hname)⟩

end DeskCalculator.Expression

namespace DeskCalculator.Scientific

open Expression Number Reading

variable {n : Numeral} {e : ExponentPart}

/-- A capital mark behind a number is a name there, which cannot be read. -/
theorem exists_parse_error_of_number_mark (hn : n.IsProper Token.isExponentMark)
    (rest : List Char) :
    ∃ fault, parse (String.ofList (n.text ++ 'E' :: rest)) = .error fault := by
  cases hparse : parse (String.ofList (n.text ++ 'E' :: rest)) with
  | error fault => exact ⟨fault, rfl⟩
  | ok tree =>
    obtain ⟨name, others, htokens⟩ := tokensOf_number_mark hn rest
    have hchain := (isSum_of_parse hparse).isChain_mayFollow
    rw [map_token_scan, String.toList_ofList, htokens] at hchain
    exact absurd rfl ((List.isChain_cons_cons.mp hchain).1 _ name rfl)

theorem isEmpty_of_isProper (hn : n.IsProper Token.isExponentMark) :
    Text.isEmpty (String.ofList n.text) = false := by
  obtain ⟨c, rest, htext, -⟩ := hn.exists_text_eq_cons
  have hblank : Text.isBlank c = false := hn.not_isBlank_head c (by rw [htext]; rfl)
  rw [Text.isEmpty, String.toList_ofList, htext, List.all_cons, hblank, Bool.false_and]

/-- A number is evaluated to the number that it writes. -/
theorem evaluate_numeral (hn : n.IsProper Token.isExponentMark) (mode : Mode) (ans : Float) :
    evaluate (String.ofList n.text) mode ans = checkFinite n.decimal.toFloat := by
  have hspells : Token.SpellsNumber (.number (String.ofList n.text)) n.text := ⟨rfl, n, hn, rfl⟩
  have hread : readDouble? (String.ofList n.text).toList = some n.decimal.toFloat := by
    rw [String.toList_ofList]
    exact (hn.mono Token.isExponentMark_of_small).readDouble?_text
  obtain ⟨span, hscan⟩ := Token.isLegible.exists_scan_of_spells (.inr (.inl hspells))
  have hsum : IsSum (scan Token (String.ofList n.text)) (.number n.decimal.toFloat) :=
    hscan ▸ .product (.signed (.power (.atom (.number span hread))))
  have hparse := parse_of_isSum (isEmpty_of_isProper hn) hsum
  rw [evaluate_of_parse_eq_ok ((normalize_numeral hn).symm ▸ hparse)]
  rfl

/-- Where the mantissa of a number ends with a digit, its exponent may stand behind a small or a
capital letter: both are evaluated to the number written, in every mode and whatever the previous
result is. Behind a bare point only the small letter introduces an exponent, and the capital one is
refused. -/
theorem evaluate_capital_exponent (hn : n.IsProper Token.isExponentMark)
    (he : n.exponent = some e) (mode : Mode) (ans : Float) :
    let small := evaluate (String.ofList n.text) mode ans
    let capital := evaluate (String.ofList (n.withMark 'E').text) mode ans
    small = checkFinite n.decimal.toFloat ∧ (n.fraction ≠ some [] → capital = small) ∧
      (n.fraction = some [] → ∃ fault, capital = .error fault ∧ fault.kind = .malformed) := by
  have hnormal := normalize_withMark hn he
  refine ⟨evaluate_numeral hn mode ans, fun hdigit => ?_, fun hpoint => ?_⟩
  · rw [if_pos hdigit] at hnormal
    have hsmall : normalize (String.ofList n.text) = String.ofList n.text :=
      normalize_numeral hn
    rw [evaluate, evaluate, hnormal, hsmall]
  · rw [if_neg (by simp [hpoint]), Numeral.text_withMark he] at hnormal
    obtain ⟨fault, hparse⟩ :=
      exists_parse_error_of_number_mark hn.mantissa (e.sign.toList ++ e.digits)
    refine ⟨fault, ?_, kind_of_parse_error hparse⟩
    rw [Numeral.text_withMark he]
    exact evaluate_of_parse_eq_error (hnormal.symm ▸ hparse) mode ans

/-- A mantissa without whole part, and an exponent with a sign. -/
theorem evaluate_capital_exponent_of_fraction :
    let n : Numeral := ⟨[], some ['5'], some ⟨'e', some '-', ['3']⟩⟩
    n.IsProper Token.isExponentMark ∧ n.exponent = some ⟨'e', some '-', ['3']⟩ ∧
      String.ofList n.text = ".5e-3" ∧ String.ofList (n.withMark 'E').text = ".5E-3" ∧
      n.fraction ≠ some [] ∧
      evaluate ".5E-3" {} 0.0 = evaluate ".5e-3" {} 0.0 ∧
      evaluate ".5e-3" {} 0.0 = checkFinite n.decimal.toFloat := by
  intro n
  have hexponent : ExponentPart.IsProper Token.isExponentMark ⟨'e', some '-', ['3']⟩ :=
    ⟨rfl, by rintro c ⟨⟩; rfl, List.forall_mem_singleton.mpr rfl, List.cons_ne_nil _ _⟩
  have hn : n.IsProper Token.isExponentMark :=
    ⟨nofun, List.forall_mem_singleton.mpr rfl, .inr (List.cons_ne_nil _ _),
      by rintro e ⟨⟩; exact hexponent⟩
  obtain ⟨hsmall, hcapital, -⟩ := evaluate_capital_exponent hn rfl {} 0.0
  exact ⟨hn, rfl, rfl, rfl, by decide, hcapital (by decide), hsmall⟩

/-- Behind a bare point the small letter introduces the exponent and the capital one is refused. -/
theorem capital_exponent_refused_behind_point :
    let n : Numeral := ⟨['1'], some [], some ⟨'e', none, ['5']⟩⟩
    n.IsProper Token.isExponentMark ∧ evaluate (String.ofList n.text) {} 0.0 = .ok 100000.0 ∧
      (failure? (evaluate (String.ofList (n.withMark 'E').text) {} 0.0)).map
        (fun fault => (fault.kind, fault.span)) = some (.malformed, some ⟨2, 4⟩) := by
  have hexponent : ExponentPart.IsProper Token.isExponentMark ⟨'e', none, ['5']⟩ :=
    ⟨rfl, nofun, List.forall_mem_singleton.mpr rfl, List.cons_ne_nil _ _⟩
  refine ⟨⟨List.forall_mem_singleton.mpr rfl, nofun, .inl (List.cons_ne_nil _ _), ?_⟩, ?_, ?_⟩
  · rintro e ⟨⟩
    exact hexponent
  · exact toOption_eq_some_iff.mp (by decide +kernel)
  · decide +kernel

end DeskCalculator.Scientific
