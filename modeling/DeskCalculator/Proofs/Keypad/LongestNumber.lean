import DeskCalculator.Proofs.Keypad.Fields
import DeskCalculator.Proofs.Reading.Munching

/-!
The number at the front of a form field is the longest one there.

    float   := ['+' | '-'] numeral
    integer := ['+' | '-'] digits

A numeral has optional parts within optional parts, and a part that is begun without being finished
belongs to what follows: the mark of an exponent without digits, or a sign behind the mark. What is
read is told by the longest prefix that the rule allows, so nothing behind this prefix matters. An
integer is refused for its range only after its digits have all been taken.
-/
namespace DeskCalculator

open Reading

namespace Number

section Signed

variable {τ : Type}

/-- Whether the words of a rule are unsigned: they begin neither with a sign nor with white space,
and each spells one number. -/
structure IsUnsigned (Spells : τ → List Char → Prop) : Prop where
  begins : ∀ {number word}, Spells number word →
    BeginsWith (fun c => isSign c = false ∧ Text.isBlank c = false) word
  told : ∀ {number other word}, Spells number word → Spells other word → other = number

structure Signed (Spells : τ → List Char → Prop) (number : Option Char × τ)
    (word : List Char) : Prop where
  isSign : ∀ c ∈ number.1, isSign c = true
  spelled : ∃ unsigned, word = number.1.toList ++ unsigned ∧ Spells number.2 unsigned

def signedFront? (front? : List Char → Option (τ × ℕ)) (text : List Char) :
    Option ((Option Char × τ) × ℕ) :=
  (front? (takeSign text).2).map fun found =>
    (((takeSign text).1, found.1), (takeSign text).1.toList.length + found.2)

variable {Spells : τ → List Char → Prop} (hrule : IsUnsigned Spells)
include hrule

/-- A finder of unsigned words gives one of signed words. -/
theorem IsUnsigned.finds_signed {front? : List Char → Option (τ × ℕ)}
    (h : Finds front? Spells) : Finds (signedFront? front?) (Signed Spells) where
  sound := by
    intro text number length hfound
    obtain ⟨⟨unsigned, unsignedLength⟩, htaken, heq⟩ := Option.map_eq_some_iff.mp hfound
    obtain ⟨rfl, rfl⟩ := Prod.mk.inj heq
    obtain ⟨hsign, htext⟩ := takeSign_spec text
    obtain ⟨word, rfl, hfront, hspelled⟩ := h.sound htaken
    have hwhole := (List.prefix_append_right_inj (takeSign text).1.toList).mpr hfront
    rw [htext] at hwhole
    exact ⟨_, List.length_append, hwhole, hsign, word, rfl, hspelled⟩
  complete := by
    rintro ⟨sign, number⟩ _ ⟨hsign, word, rfl, hspells⟩ behind
    obtain ⟨other, length, htaken, hlength⟩ := h.complete hspells behind
    obtain ⟨c, rest, rfl, hc, -⟩ := hrule.begins hspells
    -- the sign that is taken is the one of the word, for the rest of the word begins with none
    have hunsigned := takeSign_append_of_not_isSign hsign hc (rest ++ behind)
    refine ⟨(sign, other), sign.toList.length + length, ?_, ?_⟩
    · rw [List.cons_append] at htaken
      rw [signedFront?, List.append_assoc, List.cons_append, hunsigned, htaken]
      rfl
    · rw [List.length_append]
      exact Nat.add_le_add_left hlength _

/-- A word spells one number also with its sign. -/
theorem IsUnsigned.signed_told {number other : Option Char × τ} {word : List Char}
    (h : Signed Spells number word) (hother : Signed Spells other word) : other = number := by
  have htake : ∀ {number word}, Signed Spells number word →
      ∃ unsigned, takeSign word = (number.1, unsigned) ∧ Spells number.2 unsigned := by
    rintro number _ ⟨hsign, unsigned, rfl, hspells⟩
    obtain ⟨c, rest, rfl, hc, -⟩ := hrule.begins hspells
    exact ⟨_, takeSign_append_of_not_isSign hsign hc rest, hspells⟩
  obtain ⟨unsigned, htaken, hspells⟩ := htake h
  obtain ⟨unsigned', htaken', hspells'⟩ := htake hother
  obtain ⟨hsign, rfl⟩ := Prod.mk.inj (htaken'.symm.trans htaken)
  exact Prod.ext hsign (hrule.told hspells hspells')

theorem IsUnsigned.not_isBlank_head {number : Option Char × τ} {word : List Char}
    (h : Signed Spells number word) : ∀ c ∈ word.head?, Text.isBlank c = false := by
  obtain ⟨hsign, unsigned, rfl, hspells⟩ := h
  obtain ⟨first, rest, rfl, -, hblank⟩ := hrule.begins hspells
  refine not_isBlank_head_append hsign ?_
  rintro c ⟨⟩
  exact hblank

end Signed

section Rules

variable {text : List Char}

def SpellsNumeral (n : Numeral) (word : List Char) : Prop :=
  n.IsProper isExponentMark ∧ word = n.text

def SpellsDigits (digits word : List Char) : Prop :=
  digits = word ∧ IsRun Char.isDigit Char.isDigit word

def numeral? (text : List Char) : Option (Numeral × ℕ) :=
  (Numeral.scan? isExponentMark text).map fun taken => (taken.1, taken.1.text.length)

def digits? (text : List Char) : Option (List Char × ℕ) :=
  if (takeDigits text).1.isEmpty then none
  else some ((takeDigits text).1, (takeDigits text).1.length)

theorem finds_numeral : Finds numeral? SpellsNumeral where
  sound := by
    intro text n length h
    obtain ⟨⟨n, rest⟩, hscan, htaken⟩ := Option.map_eq_some_iff.mp h
    obtain ⟨rfl, rfl⟩ := Prod.mk.inj htaken
    obtain ⟨hproper, rfl⟩ := Numeral.scan?_spec hscan
    exact ⟨n.text, rfl, List.prefix_append _ _, hproper, rfl⟩
  complete := by
    rintro m _ ⟨hm, rfl⟩ behind
    obtain ⟨n, rest, hscan, hlength⟩ :=
      Numeral.exists_scan?_append not_isDigit_of_isExponentMark rfl hm behind
    exact ⟨n, n.text.length, congrArg (Option.map _) hscan, hlength⟩

theorem finds_digits : Finds digits? SpellsDigits := by
  refine .run rfl fun c rest => ?_
  by_cases hc : c.isDigit = true <;> simp [digits?, takeDigits, hc]

theorem isUnsigned_numeral : IsUnsigned SpellsNumeral where
  begins := by
    rintro n _ ⟨hproper, rfl⟩
    obtain ⟨c, rest, htext, hc⟩ := hproper.exists_text_eq_cons
    refine ⟨c, rest, htext, ?_⟩
    rcases hc with hdigit | rfl
    · exact ⟨isSign_of_isDigit hdigit, not_isBlank_of_isDigit hdigit⟩
    · exact ⟨rfl, rfl⟩
  told := by
    rintro n m _ ⟨hn, rfl⟩ ⟨hm, htext⟩
    have hscan := hn.scan?_text not_isDigit_of_isExponentMark rfl
    rw [htext, hm.scan?_text not_isDigit_of_isExponentMark rfl] at hscan
    exact (Prod.mk.inj (Option.some.inj hscan)).1

theorem isUnsigned_digits : IsUnsigned SpellsDigits where
  begins := by
    rintro _ word ⟨rfl, c, rest, hword, hdigit, -⟩
    exact ⟨c, rest, hword, isSign_of_isDigit hdigit, not_isBlank_of_isDigit hdigit⟩
  told h hother := hother.1.trans h.1.symm

theorem finds_signedNumeral : Finds (signedFront? numeral?) (Signed SpellsNumeral) :=
  isUnsigned_numeral.finds_signed finds_numeral

theorem finds_signedDigits : Finds (signedFront? digits?) (Signed SpellsDigits) :=
  isUnsigned_digits.finds_signed finds_digits

def signedValue (sign : Option Char) (digits : List Char) : ℤ :=
  if sign = some '-' then -(decimalValue digits : ℤ) else decimalValue digits

def signedDecimal (sign : Option Char) (n : Numeral) : Decimal :=
  ⟨sign = some '-', n.decimal.digits, n.decimal.exponent⟩

theorem toFloat_signedDecimal (sign : Option Char) (n : Numeral) :
    (signedDecimal sign n).toFloat =
      if sign = some '-' then -n.decimal.toFloat else n.decimal.toFloat := by
  by_cases hsign : sign = some '-'
  · rw [signedDecimal, Decimal.toFloat, if_pos hsign, if_pos (decide_eq_true hsign)]
    rfl
  · rw [signedDecimal, Decimal.toFloat, if_neg hsign, if_neg (by simpa using hsign)]
    rfl

theorem readLeadingDouble?_eq (text : List Char) : readLeadingDouble? text =
    (signedFront? numeral? text).map fun found => (signedDecimal found.1.1 found.1.2).toFloat := by
  rw [signedFront?, numeral?, Option.map_map, Option.map_map]
  refine congrArg (Option.map · _) (funext fun taken => ?_)
  exact (toFloat_signedDecimal (takeSign text).1 taken.1).symm

theorem readLeadingInt?_eq (text : List Char) : readLeadingInt? text =
    (signedFront? digits? text).bind fun found =>
      let value := signedValue found.1.1 found.1.2
      if -2 ^ 63 ≤ value ∧ value < 2 ^ 63 then some value else none := by
  unfold readLeadingInt? signedFront? digits?
  by_cases hnone : (takeDigits (takeSign text).2).1.isEmpty = true
  · simp [hnone]
  · simp [hnone, signedValue]

/-- The double that is read is the nearest to the longest number. -/
theorem readLeadingDouble?_eq_some_iff {x : Float} : readLeadingDouble? text = some x ↔
    ∃ sign n word, IsMunch (Signed SpellsNumeral) text (sign, n) word ∧
      IsNearestDouble (sign = some '-') n.value x := by
  rw [readLeadingDouble?_eq, Option.map_eq_some_iff]
  constructor
  · rintro ⟨⟨⟨sign, n⟩, length⟩, hfound, rfl⟩
    obtain ⟨word, -, hmunch⟩ := finds_signedNumeral.exists_isMunch hfound
    exact ⟨sign, n, word, hmunch, isNearestDouble_toFloat (signedDecimal sign n)⟩
  · rintro ⟨sign, n, word, hmunch, hnearest⟩
    have hfound := (finds_signedNumeral.eq_some_iff isUnsigned_numeral.signed_told).mpr
      ⟨word, rfl, hmunch⟩
    exact ⟨_, hfound, (isNearestDouble_toFloat (signedDecimal sign n)).unique hnearest⟩

/-- The integer that is read is the longest one, which must lie in the range. -/
theorem readLeadingInt?_eq_some_iff {z : ℤ} : readLeadingInt? text = some z ↔
    ∃ sign digits word, IsMunch (Signed SpellsDigits) text (sign, digits) word ∧
      signedValue sign digits = z ∧ -2 ^ 63 ≤ z ∧ z < 2 ^ 63 := by
  rw [readLeadingInt?_eq, Option.bind_eq_some_iff]
  constructor
  · rintro ⟨⟨⟨sign, digits⟩, length⟩, hfound, hread⟩
    obtain ⟨word, -, hmunch⟩ := finds_signedDigits.exists_isMunch hfound
    obtain ⟨hrange, hvalue⟩ := Option.ite_none_right_eq_some.mp hread
    obtain rfl := Option.some.inj hvalue
    exact ⟨sign, digits, word, hmunch, rfl, hrange⟩
  · rintro ⟨sign, digits, word, hmunch, rfl, hrange⟩
    have hfound := (finds_signedDigits.eq_some_iff isUnsigned_digits.signed_told).mpr
      ⟨word, rfl, hmunch⟩
    exact ⟨_, hfound, if_pos hrange⟩

end Rules

end Number

namespace Keypad

open Number

/-- Neither the white space in front of the longest word nor what follows it matters. -/
theorem signedFront?_cut {τ : Type} {Spells : τ → List Char → Prop} (hrule : IsUnsigned Spells)
    {front? : List Char → Option (τ × ℕ)} (h : Finds front? Spells) {field : String}
    {number : Option Char × τ} {word : List Char}
    (hmunch : IsMunch (Signed Spells) (Text.trimFront field.toList) number word) :
    signedFront? front? (Text.trimFront field.toList) =
      signedFront? front? (Text.trimFront (String.ofList word).toList) := by
  have hblank := hrule.not_isBlank_head hmunch.spelled
  rw [String.toList_ofList, trimFront_of_not_isBlank hblank]
  exact (hrule.finds_signed h).eq_of_isMunch hrule.signed_told hmunch

/-- Fields read the longest number. A value of the one kind is read just when the text of the field,
without the white space in front, has a prefix that is a number by the rule, and is the double
nearest to the longest such prefix; one of the other kind is read just when the longest prefix that
is an integer lies in the signed 64-bit range, and is this integer. A field that is cut off behind
the longest prefix is read alike. -/
theorem fields_read_longest_number (field : String) :
    let text := Text.trimFront field.toList
    ((∃ x, floatField? field = some x) ↔
        ∃ number word, word <+: text ∧ Signed SpellsNumeral number word) ∧
      (∀ x, floatField? field = some x ↔
        ∃ sign n word, IsMunch (Signed SpellsNumeral) text (sign, n) word ∧
          IsNearestDouble (sign = some '-') n.value x) ∧
      (∀ z, intField? field = some z ↔
        ∃ sign digits word, IsMunch (Signed SpellsDigits) text (sign, digits) word ∧
          signedValue sign digits = z ∧ -2 ^ 63 ≤ z ∧ z < 2 ^ 63) ∧
      (∀ number word, IsMunch (Signed SpellsNumeral) text number word →
        floatField? field = floatField? (String.ofList word)) ∧
      ∀ number word, IsMunch (Signed SpellsDigits) text number word →
        intField? field = intField? (String.ofList word) := by
  intro text
  refine ⟨?_, fun x => readLeadingDouble?_eq_some_iff, fun z => readLeadingInt?_eq_some_iff, ?_, ?_⟩
  · have hread : (∃ x, floatField? field = some x) ↔
        ∃ found, signedFront? numeral? text = some found := by
      rw [floatField?, readLeadingDouble?_eq, ← Option.isSome_iff_exists, Option.isSome_map,
        Option.isSome_iff_exists]
    exact hread.trans finds_signedNumeral.exists_eq_some_iff
  · intro number word hmunch
    rw [floatField?, floatField?, readLeadingDouble?_eq, readLeadingDouble?_eq,
      signedFront?_cut isUnsigned_numeral finds_numeral hmunch]
  · intro number word hmunch
    rw [intField?, intField?, readLeadingInt?_eq, readLeadingInt?_eq,
      signedFront?_cut isUnsigned_digits finds_digits hmunch]

/-- Behind a wide space, a number with the mark of an exponent and a sign but no digits of one. -/
theorem fields_read_longest_number_before_mark :
    let field := "\u3000-1.5e+x"
    IsMunch (Signed SpellsNumeral) (Text.trimFront field.toList)
        (some '-', ⟨['1'], some ['5'], none⟩) ['-', '1', '.', '5'] ∧
      IsMunch (Signed SpellsDigits) (Text.trimFront field.toList) (some '-', ['1']) ['-', '1'] ∧
      floatField? field = floatField? "-1.5" ∧ floatField? field = some (-1.5) ∧
      intField? field = intField? "-1" ∧ intField? field = some (-1) := by
  intro field
  have htext : Text.trimFront field.toList = ['-', '1', '.', '5', 'e', '+', 'x'] := by
    decide +kernel
  have hnumeral : IsMunch (Signed SpellsNumeral) (Text.trimFront field.toList)
      (some '-', ⟨['1'], some ['5'], none⟩) ['-', '1', '.', '5'] := by
    have hfound : signedFront? numeral? ['-', '1', '.', '5', 'e', '+', 'x'] =
        some ((some '-', ⟨['1'], some ['5'], none⟩), 4) := rfl
    rw [htext]
    exact finds_signedNumeral.isMunch_take hfound
  have hdigits : IsMunch (Signed SpellsDigits) (Text.trimFront field.toList) (some '-', ['1'])
      ['-', '1'] := by
    have hfound : signedFront? digits? ['-', '1', '.', '5', 'e', '+', 'x'] =
        some ((some '-', ['1']), 2) := rfl
    rw [htext]
    exact finds_signedDigits.isMunch_take hfound
  obtain ⟨-, -, hint, hcutFloat, hcutInt⟩ := fields_read_longest_number field
  have hvalue : signedValue (some '-') ['1'] = -1 := by decide
  have hread : intField? field = some (-1) :=
    (hint (-1)).mpr ⟨_, _, _, hdigits, hvalue, by norm_num, by norm_num⟩
  have hreadFloat : floatField? field = some (-1.5) := by decide +kernel
  exact ⟨hnumeral, hdigits, hcutFloat _ _ hnumeral, hreadFloat, hcutInt _ _ hdigits, hread⟩

end Keypad

end DeskCalculator
