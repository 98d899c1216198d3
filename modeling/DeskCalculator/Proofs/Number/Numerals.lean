import DeskCalculator.Number.Numeral
import DeskCalculator.Text.Blank
import Mathlib.Data.List.TakeWhile

/-!
The rule of numerals, and that the longest one at the front of a text is the one taken.

    numeral  := (digits ['.' [digits]] | '.' digits) [exponent]
    exponent := mark ['+' | '-'] digits

A numeral in front of other characters may grow into them, but its parts stay where they are: what
introduces the next part is never a digit, so a part that something follows is complete.
-/
namespace DeskCalculator.Number

variable {isMark : Char → Bool} {c : Char}

theorem isSign_of_isDigit (h : c.isDigit = true) : isSign c = false := by
  have hne : ∀ other : Char, other.isDigit = false → c ≠ other := by
    rintro _ hother rfl
    exact nomatch h.symm.trans hother
  simp [isSign, hne '+' rfl, hne '-' rfl]

theorem not_isBlank_of_isDigit (h : c.isDigit = true) : Text.isBlank c = false := by
  have hlow : 48 ≤ c.toNat := of_decide_eq_true (Bool.and_eq_true_iff.mp h).1
  have hhigh : c.toNat ≤ 57 := of_decide_eq_true (Bool.and_eq_true_iff.mp h).2
  rw [← Bool.not_eq_true]
  simp only [Text.isBlank, Bool.or_eq_true, Bool.and_eq_true, decide_eq_true_eq, beq_iff_eq]
  omega

theorem not_isBlank_of_isSign (h : isSign c = true) : Text.isBlank c = false := by
  have hsign : c = '+' ∨ c = '-' := by simpa [isSign] using h
  rcases hsign with rfl | rfl <;> rfl

/-- White space does not come with a sign. -/
theorem not_isBlank_head_append {sign : Option Char} (hsign : ∀ c ∈ sign, isSign c = true)
    {text : List Char} (h : ∀ c ∈ text.head?, Text.isBlank c = false) :
    ∀ c ∈ (sign.toList ++ text).head?, Text.isBlank c = false := by
  cases sign with
  | none => exact h
  | some s =>
    rintro c ⟨⟩
    exact not_isBlank_of_isSign (hsign s rfl)

def ExponentPart.text (e : ExponentPart) : List Char := e.mark :: (e.sign.toList ++ e.digits)

structure ExponentPart.IsProper (isMark : Char → Bool) (e : ExponentPart) : Prop where
  mark : isMark e.mark = true
  sign : ∀ c ∈ e.sign, isSign c = true
  digits : ∀ c ∈ e.digits, c.isDigit = true
  nonempty : e.digits ≠ []

/-- Whether the parts of a numeral are as the rule has them. -/
structure Numeral.IsProper (isMark : Char → Bool) (n : Numeral) : Prop where
  whole : ∀ c ∈ n.whole, c.isDigit = true
  fraction : ∀ c ∈ n.fraction.getD [], c.isDigit = true
  nonempty : n.whole ≠ [] ∨ n.fraction.getD [] ≠ []
  exponent : ∀ e ∈ n.exponent, e.IsProper isMark

theorem Numeral.text_eq (n : Numeral) : n.text =
    n.whole ++ (n.fraction.elim [] ('.' :: ·) ++ n.exponent.elim [] ExponentPart.text) := by
  obtain ⟨whole, fraction, exponent⟩ := n
  cases fraction <;> cases exponent <;> simp [Numeral.text, ExponentPart.text]

theorem Numeral.IsProper.mono {isOther : Char → Bool} {n : Numeral} (h : n.IsProper isMark)
    (hmark : ∀ c, isMark c = true → isOther c = true) : n.IsProper isOther where
  whole := h.whole
  fraction := h.fraction
  nonempty := h.nonempty
  exponent e he := { h.exponent e he with mark := hmark _ (h.exponent e he).mark }

/-- A numeral begins with a digit or its point. -/
theorem Numeral.IsProper.exists_text_eq_cons {n : Numeral} (h : n.IsProper isMark) :
    ∃ c rest, n.text = c :: rest ∧ (c.isDigit = true ∨ c = '.') := by
  obtain ⟨whole, fraction, exponent⟩ := n
  rw [text_eq]
  cases whole with
  | cons c rest => exact ⟨c, _, rfl, .inl (h.whole c (List.mem_cons_self ..))⟩
  | nil =>
    cases fraction with
    | some digits => exact ⟨'.', _, rfl, .inr rfl⟩
    | none => exact absurd h.nonempty (by simp)

/-- A numeral does not begin with white space. -/
theorem Numeral.IsProper.not_isBlank_head {n : Numeral} (h : n.IsProper isMark) :
    ∀ c ∈ n.text.head?, Text.isBlank c = false := by
  obtain ⟨first, rest, htext, hfirst⟩ := h.exists_text_eq_cons
  rw [htext]
  rintro c ⟨⟩
  exact hfirst.elim not_isBlank_of_isDigit fun hpoint => hpoint ▸ rfl

/-- A numeral is made of digits, its point, the mark of its exponent and a sign. -/
theorem Numeral.IsProper.of_mem_text {n : Numeral} (h : n.IsProper isMark) (hc : c ∈ n.text) :
    c.isDigit = true ∨ c = '.' ∨ isMark c = true ∨ isSign c = true := by
  obtain ⟨whole, fraction, exponent⟩ := n
  rw [text_eq, List.mem_append, List.mem_append] at hc
  rcases hc with hwhole | hfraction | hexponent
  · exact .inl (h.whole c hwhole)
  · cases fraction with
    | none => exact absurd hfraction List.not_mem_nil
    | some digits =>
      rcases List.mem_cons.mp hfraction with hpoint | hdigit
      · exact .inr (.inl hpoint)
      · exact .inl (h.fraction c hdigit)
  · cases exponent with
    | none => exact absurd hexponent List.not_mem_nil
    | some e =>
      have he : e.IsProper isMark := h.exponent e rfl
      rcases List.mem_cons.mp hexponent with hmark | hbehind
      · exact .inr (.inr (.inl (hmark ▸ he.mark)))
      · rcases List.mem_append.mp hbehind with hsign | hdigit
        · exact .inr (.inr (.inr (he.sign c (Option.mem_toList.mp hsign))))
        · exact .inl (he.digits c hdigit)

theorem takeDigits_spec (text : List Char) :
    (∀ c ∈ (takeDigits text).1, c.isDigit = true) ∧
      (takeDigits text).1 ++ (takeDigits text).2 = text :=
  ⟨fun _ hc => List.mem_takeWhile_imp hc, List.takeWhile_append_dropWhile⟩

theorem takeDigits_append {digits : List Char} (h : ∀ c ∈ digits, c.isDigit = true)
    (rest : List Char) :
    takeDigits (digits ++ rest) = (digits ++ (takeDigits rest).1, (takeDigits rest).2) := by
  simp only [takeDigits, List.takeWhile_append_of_pos h, List.dropWhile_append_of_pos h]

theorem takeDigits_of_all {digits : List Char} (h : ∀ c ∈ digits, c.isDigit = true) :
    takeDigits digits = (digits, []) := by
  simpa [takeDigits] using takeDigits_append h []

theorem takeDigits_append_cons {digits : List Char} (h : ∀ c ∈ digits, c.isDigit = true)
    (hc : c.isDigit = false) (rest : List Char) :
    takeDigits (digits ++ c :: rest) = (digits, c :: rest) := by
  have hnone : takeDigits (c :: rest) = ([], c :: rest) := by simp [takeDigits, hc]
  rw [takeDigits_append h, hnone, List.append_nil]

theorem takeSign_spec (text : List Char) :
    (∀ c ∈ (takeSign text).1, isSign c = true) ∧
      (takeSign text).1.toList ++ (takeSign text).2 = text := by
  cases text with
  | nil => simp [takeSign]
  | cons c rest => by_cases h : isSign c <;> simp [takeSign, h]

/-- A sign is told from a word that does not begin with one. -/
theorem takeSign_append_of_not_isSign {sign : Option Char} (h : ∀ c ∈ sign, isSign c = true)
    (hc : isSign c = false) (rest : List Char) :
    takeSign (sign.toList ++ c :: rest) = (sign, c :: rest) := by
  cases sign with
  | none => simp [takeSign, hc]
  | some s => simp [takeSign, h s rfl]

theorem takeSign_append {sign : Option Char} (h : ∀ c ∈ sign, isSign c = true)
    (hdigit : c.isDigit = true) (rest : List Char) :
    takeSign (sign.toList ++ c :: rest) = (sign, c :: rest) :=
  takeSign_append_of_not_isSign h (isSign_of_isDigit hdigit) rest

theorem takeFraction_spec (text : List Char) :
    (∀ c ∈ (takeFraction text).1.getD [], c.isDigit = true) ∧
      (takeFraction text).1.elim [] ('.' :: ·) ++ (takeFraction text).2 = text := by
  unfold takeFraction
  split
  case h_1 tail =>
    obtain ⟨hdigits, htail⟩ := takeDigits_spec tail
    exact ⟨hdigits, congrArg (List.cons '.') htail⟩
  case h_2 => exact ⟨nofun, rfl⟩

theorem takeExponent_spec (isMark : Char → Bool) (text : List Char) :
    (∀ e ∈ (takeExponent isMark text).1, e.IsProper isMark) ∧
      (takeExponent isMark text).1.elim [] ExponentPart.text ++ (takeExponent isMark text).2 =
        text := by
  cases text with
  | nil => exact ⟨nofun, rfl⟩
  | cons mark tail =>
    obtain ⟨hsign, htail⟩ := takeSign_spec tail
    obtain ⟨hdigits, hunsigned⟩ := takeDigits_spec (takeSign tail).2
    by_cases h : isMark mark = true ∧ (takeDigits (takeSign tail).2).1 ≠ []
    · have htake : takeExponent isMark (mark :: tail) =
          (some ⟨mark, (takeSign tail).1, (takeDigits (takeSign tail).2).1⟩,
            (takeDigits (takeSign tail).2).2) := by
        simp [takeExponent, h]
      rw [htake]
      refine ⟨?_, ?_⟩
      · rintro e ⟨⟩
        exact ⟨h.1, hsign, hdigits, h.2⟩
      · simp only [Option.elim_some, ExponentPart.text, List.cons_append, List.append_assoc,
          hunsigned, htail]
    · have htake : takeExponent isMark (mark :: tail) = (none, mark :: tail) := by
        simpa [takeExponent] using h
      rw [htake]
      exact ⟨fun _ he => absurd he (Option.not_mem_none _), rfl⟩

/-- What is taken from a text is a numeral by the rule, and stood in front of the rest. -/
theorem Numeral.scan?_spec {n : Numeral} {text rest : List Char}
    (h : scan? isMark text = some (n, rest)) :
    n.IsProper isMark ∧ n.text ++ rest = text := by
  obtain ⟨hwhole, htext⟩ := takeDigits_spec text
  obtain ⟨hfraction, hafterWhole⟩ := takeFraction_spec (takeDigits text).2
  obtain ⟨hexponent, hafterFraction⟩ :=
    takeExponent_spec isMark (takeFraction (takeDigits text).2).2
  unfold scan? at h
  dsimp only at h
  split at h
  case isTrue => exact nomatch h
  case isFalse hdigits =>
    obtain ⟨rfl, rfl⟩ := Prod.mk.inj (Option.some.inj h)
    refine ⟨⟨hwhole, hfraction, ?_, hexponent⟩, ?_⟩
    · simpa [← not_and_or] using hdigits
    · rw [text_eq, List.append_assoc, List.append_assoc, hafterFraction, hafterWhole, htext]

theorem takeExponent_append {e : ExponentPart} (h : e.IsProper isMark) (rest : List Char) :
    takeExponent isMark (e.text ++ rest) =
      (some { e with digits := e.digits ++ (takeDigits rest).1 }, (takeDigits rest).2) := by
  obtain ⟨mark, sign, digits⟩ := e
  obtain ⟨hmark, hsign, hdigits, hnonempty⟩ := h
  obtain ⟨first, others, rfl⟩ := List.exists_cons_of_ne_nil hnonempty
  have hunsigned := takeSign_append hsign (hdigits first (List.mem_cons_self ..)) (others ++ rest)
  have htaken := takeDigits_append hdigits rest
  rw [List.cons_append] at htaken
  simp [ExponentPart.text, takeExponent, hunsigned, htaken, hmark]

theorem Numeral.scan?_eq_some {text afterWhole afterFraction rest whole : List Char}
    {fraction : Option (List Char)} {exponent : Option ExponentPart}
    (hwhole : takeDigits text = (whole, afterWhole))
    (hfraction : takeFraction afterWhole = (fraction, afterFraction))
    (hexponent : takeExponent isMark afterFraction = (exponent, rest))
    (hnonempty : whole ≠ [] ∨ fraction.getD [] ≠ []) :
    scan? isMark text = some (⟨whole, fraction, exponent⟩, rest) := by
  have hdigits : (whole.isEmpty && (fraction.getD []).isEmpty) = false := by
    simpa [← not_and_or] using hnonempty
  simp [scan?, hwhole, hfraction, hexponent, hdigits]

theorem takeFraction_point {digits tail rest : List Char}
    (h : takeDigits tail = (digits, rest)) : takeFraction ('.' :: tail) = (some digits, rest) := by
  simp [takeFraction, h]

theorem takeFraction_of_ne (h : c ≠ '.') (rest : List Char) :
    takeFraction (c :: rest) = (none, c :: rest) := by
  unfold takeFraction
  split
  · exact absurd (List.cons.inj ‹_›).1 h
  · rfl

/-- A numeral by itself is taken as a whole. -/
theorem Numeral.IsProper.scan?_text (hmark : ∀ c, isMark c = true → c.isDigit = false)
    (hpoint : isMark '.' = false) {n : Numeral} (h : n.IsProper isMark) :
    scan? isMark n.text = some (n, []) := by
  obtain ⟨whole, fraction, exponent⟩ := n
  have hwhole : ∀ c ∈ whole, c.isDigit = true := h.whole
  rw [text_eq]
  cases exponent with
  | some e =>
    have he : e.IsProper isMark := h.exponent e rfl
    have hdigit : e.mark.isDigit = false := hmark e.mark he.mark
    have hexponent : takeExponent isMark e.text = (some e, []) := by
      simpa [takeDigits] using takeExponent_append he []
    cases fraction with
    | some digits =>
      exact scan?_eq_some (takeDigits_append_cons hwhole rfl _)
        (takeFraction_point (takeDigits_append_cons h.fraction hdigit _)) hexponent h.nonempty
    | none =>
      have hne : e.mark ≠ '.' := fun heq => absurd he.mark (by simp [heq, hpoint])
      exact scan?_eq_some (takeDigits_append_cons hwhole hdigit _) (takeFraction_of_ne hne _)
        hexponent h.nonempty
  | none =>
    cases fraction with
    | some digits =>
      rw [Option.elim_none, List.append_nil]
      exact scan?_eq_some (takeDigits_append_cons hwhole rfl _)
        (takeFraction_point (takeDigits_of_all h.fraction)) rfl h.nonempty
    | none =>
      rw [Option.elim_none, Option.elim_none, List.append_nil, List.append_nil]
      exact scan?_eq_some (takeDigits_of_all hwhole) rfl rfl h.nonempty

/-- A numeral in front of other characters is taken, possibly with some of them. -/
theorem Numeral.exists_scan?_append (hmark : ∀ c, isMark c = true → c.isDigit = false)
    (hpoint : isMark '.' = false) {m : Numeral} (h : m.IsProper isMark) (rest : List Char) :
    ∃ n remaining, scan? isMark (m.text ++ rest) = some (n, remaining) ∧
      m.text.length ≤ n.text.length := by
  obtain ⟨whole, fraction, exponent⟩ := m
  have hwhole : ∀ c ∈ whole, c.isDigit = true := h.whole
  have hnonempty : whole ≠ [] ∨ fraction.getD [] ≠ [] := h.nonempty
  rw [text_eq, List.append_assoc, List.append_assoc]
  cases exponent with
  | some e =>
    have he : e.IsProper isMark := h.exponent e rfl
    have hdigit : e.mark.isDigit = false := hmark e.mark he.mark
    cases fraction with
    | some digits =>
      have hscan := scan?_eq_some (takeDigits_append_cons hwhole rfl _)
        (takeFraction_point (takeDigits_append_cons h.fraction hdigit _))
        (takeExponent_append he rest) hnonempty
      exact ⟨_, _, hscan, by simp [text_eq, ExponentPart.text]⟩
    | none =>
      have hne : e.mark ≠ '.' := fun heq => absurd he.mark (by simp [heq, hpoint])
      have hscan := scan?_eq_some (takeDigits_append_cons hwhole hdigit _)
        (takeFraction_of_ne hne _) (takeExponent_append he rest) hnonempty
      exact ⟨_, _, hscan, by simp [text_eq, ExponentPart.text]⟩
  | none =>
    cases fraction with
    | some digits =>
      have hmore : whole ≠ [] ∨ digits ++ (takeDigits rest).1 ≠ [] :=
        hnonempty.imp_right fun hdigits => List.append_ne_nil_of_left_ne_nil hdigits _
      have hscan : scan? isMark (whole ++ '.' :: (digits ++ rest)) = _ :=
        scan?_eq_some (takeDigits_append_cons hwhole rfl _)
          (takeFraction_point (takeDigits_append h.fraction rest)) rfl hmore
      exact ⟨_, _, hscan, by simp [text_eq]⟩
    | none =>
      have hmore : whole ++ (takeDigits rest).1 ≠ [] :=
        List.append_ne_nil_of_left_ne_nil (hnonempty.resolve_right fun hnil => hnil rfl) _
      have hscan : scan? isMark (whole ++ rest) = _ :=
        scan?_eq_some (takeDigits_append hwhole rest) rfl rfl (.inl hmore)
      exact ⟨_, _, hscan, by simp [text_eq]⟩

theorem not_isDigit_of_isExponentMark (c : Char) (h : isExponentMark c = true) :
    c.isDigit = false := by
  have hletter : c = 'e' ∨ c = 'E' := by simpa [isExponentMark] using h
  rcases hletter with rfl | rfl <;> rfl

/-- A numeral behind an optional sign is read as the number that it writes. -/
theorem Numeral.IsProper.readDouble?_append {n : Numeral} (h : n.IsProper isExponentMark)
    {sign : Option Char} (hsign : ∀ c ∈ sign, isSign c = true) :
    readDouble? (sign.toList ++ n.text) =
      some (if sign = some '-' then -n.decimal.toFloat else n.decimal.toFloat) := by
  obtain ⟨c, rest, htext, hc⟩ := h.exists_text_eq_cons
  have hunsigned : isSign c = false := hc.elim isSign_of_isDigit fun hpoint => hpoint ▸ rfl
  have htake : takeSign (sign.toList ++ n.text) = (sign, n.text) :=
    htext ▸ takeSign_append_of_not_isSign hsign hunsigned rest
  have hscan := h.scan?_text not_isDigit_of_isExponentMark rfl
  simp [readDouble?, htake, hscan]

/-- A numeral is read as the number that it writes. -/
theorem Numeral.IsProper.readDouble?_text {n : Numeral} (h : n.IsProper isExponentMark) :
    readDouble? n.text = some n.decimal.toFloat :=
  h.readDouble?_append (nofun : ∀ c ∈ none, isSign c = true)

end DeskCalculator.Number
