import Mathlib.Computability.Language
import DeskCalculator.Proofs.Number.Numerals

/-!
How doubles are written. A literal has digits before its point, behind it or on both sides, and may
do without the point.

    literal  := [sign] (digits | digits '.' | digits '.' digits | '.' digits) [exponent]
    exponent := ('e' | 'E') [sign] digits

A text is searched for numerals by a rule of another form, in which optional parts stand within
optional parts.

    numeral := (digits ['.' [digits]] | '.' digits) [exponent]

The rules are languages here, so that the laws of Kleene algebra bring the one form into the other.
A whole text is read as a double if it is a literal or one of the names of what is not finite, and
not otherwise.
-/
namespace DeskCalculator.Number

open scoped Computability

section

variable {c : Char}

/-- Only capital letters have a small one. -/
theorem toLower_eq_self (h : ¬(65 ≤ c.toNat ∧ c.toNat ≤ 90)) : c.toLower = c := by
  have hsmall : ¬(c.val ≥ 'A'.val ∧ c.val ≤ 'Z'.val) := h
  exact dif_neg hsmall

theorem toNat_toLower (h : 65 ≤ c.toNat ∧ c.toNat ≤ 90) : c.toLower.toNat = c.toNat + 32 := by
  have hcapital : c.val ≥ 'A'.val ∧ c.val ≤ 'Z'.val := h
  have hval : c.toLower.val = c.val + 32 := congrArg Char.val (dif_pos hcapital)
  have hsum : c.toNat + 32 < 2 ^ 32 := by omega
  rw [Char.toNat, hval, UInt32.toNat_add]
  exact Nat.mod_eq_of_lt hsum

theorem eq_of_toLower (h : c.toLower = 'i' ∨ c.toLower = 'n') :
    c = 'i' ∨ c = 'I' ∨ c = 'n' ∨ c = 'N' := by
  by_cases hcapital : 65 ≤ c.toNat ∧ c.toNat ≤ 90
  · have hcode := toNat_toLower hcapital
    rcases h with h | h
    · rw [h] at hcode
      exact .inr (.inl (Char.toNat_inj.mp (Nat.add_right_cancel hcode.symm)))
    · rw [h] at hcode
      exact .inr (.inr (.inr (Char.toNat_inj.mp (Nat.add_right_cancel hcode.symm))))
  · rw [toLower_eq_self hcapital] at h
    exact h.imp_right fun hsmall => .inr (.inl hsmall)

theorem exists_letter_of_namedDouble? {word : List Char} {x : Float}
    (h : namedDouble? word = some x) : ∃ c ∈ word.head?, c = 'i' ∨ c = 'n' := by
  unfold namedDouble? at h
  split_ifs at h with hinfinite hnan
  · rcases hinfinite with rfl | rfl <;> exact ⟨_, rfl, .inl rfl⟩
  · exact hnan ▸ ⟨_, rfl, .inr rfl⟩

end

namespace Grammar

def single (p : Char → Bool) : Language Char := {word | ∃ c, p c = true ∧ word = [c]}

def digits : Language Char := single Char.isDigit * (single Char.isDigit)∗

def point : Language Char := single (· == '.')

/-- Digits with an optional point and optional digits behind it, or a point with digits behind
it. -/
def mantissa : Language Char := digits * (1 + point * (single Char.isDigit)∗) + point * digits

def exponent (isMark : Char → Bool) : Language Char := single isMark * (1 + single isSign) * digits

def numeral (isMark : Char → Bool) : Language Char := mantissa * (1 + exponent isMark)

/-- What a form field is searched for. -/
def field : Language Char := (1 + single isSign) * numeral isExponentMark

def literal : Language Char :=
  (1 + single isSign) *
    ((digits + digits * point + digits * point * digits + point * digits) *
      (1 + exponent isExponentMark))

def name : Language Char :=
  {word | word.map Char.toLower ∈
    [['i', 'n', 'f'], ['i', 'n', 'f', 'i', 'n', 'i', 't', 'y'], ['n', 'a', 'n']]}

def named : Language Char := (1 + single isSign) * name

section

variable {p isMark : Char → Bool} {word : List Char}

theorem mem_single_iff : word ∈ single p ↔ ∃ c, p c = true ∧ word = [c] := Iff.rfl

/-- A star of single characters holds the words made of them. -/
theorem mem_kstar_single_iff : word ∈ (single p)∗ ↔ ∀ c ∈ word, p c = true := by
  rw [Language.mem_kstar]
  constructor
  · rintro ⟨parts, rfl, hparts⟩ c hc
    obtain ⟨part, hpart, hmem⟩ := List.mem_flatten.mp hc
    obtain ⟨d, hd, rfl⟩ := hparts part hpart
    rwa [List.mem_singleton.mp hmem]
  · intro h
    refine ⟨word.map fun c => [c], by rw [← List.flatMap_def, List.flatMap_singleton'], ?_⟩
    intro part hpart
    obtain ⟨c, hc, rfl⟩ := List.mem_map.mp hpart
    exact ⟨c, h c hc, rfl⟩

theorem mem_digits_iff : word ∈ digits ↔ word ≠ [] ∧ ∀ c ∈ word, c.isDigit = true := by
  constructor
  · rintro ⟨_, ⟨c, hc, rfl⟩, rest, hrest, rfl⟩
    exact ⟨List.cons_ne_nil c rest, List.forall_mem_cons.mpr ⟨hc, mem_kstar_single_iff.mp hrest⟩⟩
  · rintro ⟨hne, hall⟩
    obtain ⟨c, rest, rfl⟩ := List.exists_cons_of_ne_nil hne
    obtain ⟨hc, hrest⟩ := List.forall_mem_cons.mp hall
    exact ⟨[c], ⟨c, hc, rfl⟩, rest, mem_kstar_single_iff.mpr hrest, rfl⟩

theorem mem_point_mul_iff {l : Language Char} :
    word ∈ point * l ↔ ∃ rest ∈ l, word = '.' :: rest := by
  constructor
  · rintro ⟨_, ⟨c, hc, rfl⟩, rest, hrest, rfl⟩
    exact ⟨rest, hrest, congrArg (· :: rest) (beq_iff_eq.mp hc)⟩
  · rintro ⟨rest, hrest, rfl⟩
    exact ⟨['.'], ⟨'.', rfl, rfl⟩, rest, hrest, rfl⟩

/-- An optional word is told by an optional part, if a word is told by a part. -/
theorem mem_one_add_iff {Part : Type} {IsPart : Part → Prop} {text : Part → List Char}
    {l : Language Char} (h : ∀ word, word ∈ l ↔ ∃ part, IsPart part ∧ word = text part) :
    word ∈ 1 + l ↔ ∃ part : Option Part, (∀ a ∈ part, IsPart a) ∧ word = part.elim [] text := by
  rw [Language.mem_add, Language.mem_one, h]
  constructor
  · rintro (rfl | ⟨part, hpart, rfl⟩)
    · exact ⟨none, nofun, rfl⟩
    · exact ⟨some part, by rintro _ ⟨⟩; exact hpart, rfl⟩
  · rintro ⟨part, hpart, rfl⟩
    cases part with
    | none => exact .inl rfl
    | some a => exact .inr ⟨a, hpart a rfl, rfl⟩

theorem mem_sign_iff : word ∈ 1 + single isSign ↔
    ∃ sign : Option Char, (∀ c ∈ sign, isSign c = true) ∧ word = sign.toList := by
  rw [mem_one_add_iff fun _ => mem_single_iff]
  refine exists_congr fun sign => and_congr_right fun _ => ?_
  cases sign <;> rfl

theorem mem_mantissa_iff : word ∈ mantissa ↔
    ∃ (whole : List Char) (fraction : Option (List Char)), (∀ c ∈ whole, c.isDigit = true) ∧
      (∀ c ∈ fraction.getD [], c.isDigit = true) ∧ (whole ≠ [] ∨ fraction.getD [] ≠ []) ∧
      word = whole ++ fraction.elim [] ('.' :: ·) := by
  have hbehind : ∀ word, word ∈ point * (single Char.isDigit)∗ ↔
      ∃ rest : List Char, (∀ c ∈ rest, c.isDigit = true) ∧ word = '.' :: rest := fun word => by
    simp only [mem_point_mul_iff, mem_kstar_single_iff]
  rw [mantissa, Language.mem_add, mem_point_mul_iff]
  constructor
  · rintro (⟨whole, hwhole, _, hrest, rfl⟩ | ⟨rest, hrest, rfl⟩)
    · obtain ⟨hne, hall⟩ := mem_digits_iff.mp hwhole
      obtain ⟨fraction, hfraction, rfl⟩ := (mem_one_add_iff hbehind).mp hrest
      refine ⟨whole, fraction, hall, ?_, .inl hne, rfl⟩
      cases fraction with
      | none => exact nofun
      | some rest => exact hfraction rest rfl
    · obtain ⟨hne, hall⟩ := mem_digits_iff.mp hrest
      exact ⟨[], some rest, nofun, hall, .inr hne, rfl⟩
  · rintro ⟨whole, fraction, hwhole, hfraction, hne, rfl⟩
    by_cases hnil : whole = []
    · -- without a whole part there is a fraction, which has the digit
      subst hnil
      have hdigit : fraction.getD [] ≠ [] := hne.resolve_left fun hwhole => hwhole rfl
      cases fraction with
      | none => exact absurd rfl hdigit
      | some rest => exact .inr ⟨rest, mem_digits_iff.mpr ⟨hdigit, hfraction⟩, rfl⟩
    · refine .inl ⟨whole, mem_digits_iff.mpr ⟨hnil, hwhole⟩, _, ?_, rfl⟩
      refine (mem_one_add_iff hbehind).mpr ⟨fraction, ?_, rfl⟩
      rintro rest rfl
      exact hfraction

theorem mem_exponent_iff : word ∈ exponent isMark ↔
    ∃ e : ExponentPart, e.IsProper isMark ∧ word = e.text := by
  constructor
  · rintro ⟨_, ⟨_, ⟨mark, hmark, rfl⟩, _, hsigned, rfl⟩, rest, hrest, rfl⟩
    obtain ⟨sign, hsign, rfl⟩ := mem_sign_iff.mp hsigned
    obtain ⟨hne, hall⟩ := mem_digits_iff.mp hrest
    exact ⟨⟨mark, sign, rest⟩, ⟨hmark, hsign, hall, hne⟩, rfl⟩
  · rintro ⟨⟨mark, sign, rest⟩, ⟨hmark, hsign, hall, hne⟩, rfl⟩
    have hsigned : sign.toList ∈ 1 + single isSign := mem_sign_iff.mpr ⟨sign, hsign, rfl⟩
    have hmarked : mark :: sign.toList ∈ single isMark * (1 + single isSign) :=
      ⟨[mark], ⟨mark, hmark, rfl⟩, sign.toList, hsigned, rfl⟩
    exact Language.append_mem_mul hmarked (mem_digits_iff.mpr ⟨hne, hall⟩)

/-- The rule of numerals and the proper parts of a numeral are the same. -/
theorem mem_numeral_iff : word ∈ numeral isMark ↔
    ∃ n : Numeral, n.IsProper isMark ∧ word = n.text := by
  constructor
  · rintro ⟨_, hmantissa, _, hexponent, rfl⟩
    obtain ⟨whole, fraction, hwhole, hfraction, hne, rfl⟩ := mem_mantissa_iff.mp hmantissa
    obtain ⟨e, he, rfl⟩ := (mem_one_add_iff fun _ => mem_exponent_iff).mp hexponent
    refine ⟨⟨whole, fraction, e⟩, ⟨hwhole, hfraction, hne, he⟩, ?_⟩
    rw [Numeral.text_eq]
    exact List.append_assoc ..
  · rintro ⟨n, ⟨hwhole, hfraction, hne, he⟩, rfl⟩
    rw [Numeral.text_eq, ← List.append_assoc]
    have hmantissa := mem_mantissa_iff.mpr ⟨_, _, hwhole, hfraction, hne, rfl⟩
    exact Language.append_mem_mul hmantissa
      ((mem_one_add_iff fun _ => mem_exponent_iff).mpr ⟨_, he, rfl⟩)

/-- A form field is searched for numerals behind an optional sign. -/
theorem mem_field_iff : word ∈ field ↔ ∃ (sign : Option Char) (n : Numeral),
    (∀ c ∈ sign, isSign c = true) ∧ n.IsProper isExponentMark ∧ word = sign.toList ++ n.text := by
  constructor
  · rintro ⟨_, hsigned, _, hnumeral, rfl⟩
    obtain ⟨sign, hsign, rfl⟩ := mem_sign_iff.mp hsigned
    obtain ⟨n, hproper, rfl⟩ := mem_numeral_iff.mp hnumeral
    exact ⟨sign, n, hsign, hproper, rfl⟩
  · rintro ⟨sign, n, hsign, hproper, rfl⟩
    exact Language.append_mem_mul (mem_sign_iff.mpr ⟨sign, hsign, rfl⟩)
      (mem_numeral_iff.mpr ⟨n, hproper, rfl⟩)

/-- With digits told from their absence, the optional parts of a mantissa give its four forms. -/
theorem mantissa_eq :
    mantissa = digits + digits * point + digits * point * digits + point * digits := by
  have hstar : (single Char.isDigit)∗ = 1 + digits :=
    (Language.one_add_self_mul_kstar_eq_kstar _).symm
  calc mantissa = digits * (1 + point * (1 + digits)) + point * digits := by rw [mantissa, hstar]
    _ = digits + digits * point + digits * point * digits + point * digits := by
      simp only [mul_add, mul_one, mul_assoc, add_assoc]

/-- What a form field is searched for are the literals. -/
theorem field_eq_literal : field = literal := by
  rw [field, numeral, mantissa_eq, literal]

/-- A numeral is a literal, if its marks are among those of literals. -/
theorem mem_literal_of_mem_numeral (hmark : ∀ c, isMark c = true → isExponentMark c = true)
    (hword : word ∈ numeral isMark) : word ∈ literal := by
  obtain ⟨n, hproper, rfl⟩ := mem_numeral_iff.mp hword
  rw [← field_eq_literal]
  exact mem_field_iff.mpr ⟨none, n, nofun, hproper.mono hmark, rfl⟩

theorem mem_name_iff : word ∈ name ↔ ∃ x, namedDouble? (word.map Char.toLower) = some x := by
  have hname : word ∈ name ↔ (word.map Char.toLower = ['i', 'n', 'f'] ∨
      word.map Char.toLower = ['i', 'n', 'f', 'i', 'n', 'i', 't', 'y']) ∨
      word.map Char.toLower = ['n', 'a', 'n'] := by
    simp only [or_assoc]
    exact List.mem_cons.trans (or_congr_right (List.mem_pair))
  rw [hname, namedDouble?]
  split_ifs with hinfinite hnan
  · simp [hinfinite]
  · simp [hnan]
  · simp [hinfinite, hnan]

/-- A name begins with a letter. -/
theorem exists_eq_cons_of_mem_name (h : word ∈ name) : ∃ c rest, word = c :: rest ∧
    isSign c = false ∧ Text.isBlank c = false ∧ c.isDigit = false ∧ c ≠ '.' := by
  obtain ⟨x, hx⟩ := mem_name_iff.mp h
  obtain ⟨d, hd, hletter⟩ := exists_letter_of_namedDouble? hx
  obtain ⟨c, hc, rfl⟩ := Option.map_eq_some_iff.mp (List.head?_map ▸ hd)
  obtain ⟨rest, rfl⟩ := List.head?_eq_some_iff.mp hc
  refine ⟨c, rest, rfl, ?_⟩
  rcases eq_of_toLower hletter with rfl | rfl | rfl | rfl
  all_goals exact ⟨rfl, rfl, rfl, by decide⟩

end

end Grammar

theorem Numeral.scan?_eq_none {isMark : Char → Bool} {c : Char} (hdigit : c.isDigit = false)
    (hpoint : c ≠ '.') (rest : List Char) : scan? isMark (c :: rest) = none := by
  simp [scan?, takeDigits, hdigit, takeFraction_of_ne hpoint]

section

variable {text : List Char}

/-- Whatever is read as a double is a literal or a name. -/
theorem mem_of_readDouble? {x : Float} (h : readDouble? text = some x) :
    text ∈ Grammar.literal ∨ text ∈ Grammar.named := by
  obtain ⟨hsign, htext⟩ := takeSign_spec text
  unfold readDouble? at h
  cases hscan : Numeral.scan? isExponentMark (takeSign text).2 with
  | none =>
    simp only [hscan] at h
    obtain ⟨magnitude, hnamed, -⟩ := Option.map_eq_some_iff.mp h
    rw [← htext]
    exact .inr (Language.append_mem_mul (Grammar.mem_sign_iff.mpr ⟨_, hsign, rfl⟩)
      (Grammar.mem_name_iff.mpr ⟨magnitude, hnamed⟩))
  | some taken =>
    obtain ⟨n, _ | ⟨c, rest⟩⟩ := taken
    · obtain ⟨hproper, hunsigned⟩ := Numeral.scan?_spec hscan
      rw [List.append_nil] at hunsigned
      rw [← Grammar.field_eq_literal, ← htext, ← hunsigned]
      exact .inl (Grammar.mem_field_iff.mpr ⟨_, n, hsign, hproper, rfl⟩)
    · simp only [hscan] at h
      exact nomatch h

theorem exists_readDouble?_of_literal (h : text ∈ Grammar.literal) :
    ∃ x, readDouble? text = some x := by
  rw [← Grammar.field_eq_literal] at h
  obtain ⟨sign, n, hsign, hproper, rfl⟩ := Grammar.mem_field_iff.mp h
  exact ⟨_, hproper.readDouble?_append hsign⟩

theorem exists_readDouble?_of_name (h : text ∈ Grammar.named) :
    ∃ x, readDouble? text = some x := by
  obtain ⟨_, hsigned, word, hword, rfl⟩ := h
  obtain ⟨sign, hsign, rfl⟩ := Grammar.mem_sign_iff.mp hsigned
  obtain ⟨magnitude, hnamed⟩ := Grammar.mem_name_iff.mp hword
  obtain ⟨c, rest, rfl, hunsigned, -, hdigit, hpoint⟩ := Grammar.exists_eq_cons_of_mem_name hword
  have htake := takeSign_append_of_not_isSign hsign hunsigned rest
  have hscan : Numeral.scan? isExponentMark (c :: rest) = none :=
    Numeral.scan?_eq_none hdigit hpoint rest
  refine ⟨if sign = some '-' then -magnitude else magnitude, ?_⟩
  rw [readDouble?, htake]
  simp only [hscan, hnamed, Option.map_some]

/-- A whole text is read as a double just when it is a literal, or a name behind an optional
sign. -/
theorem exists_readDouble?_iff : (∃ x, readDouble? text = some x) ↔
    text ∈ Grammar.literal ∨ text ∈ Grammar.named :=
  ⟨fun ⟨_, h⟩ => mem_of_readDouble? h,
    fun h => h.elim exists_readDouble?_of_literal exists_readDouble?_of_name⟩

/-- No double is read from a text that begins with white space. -/
theorem not_isBlank_of_readDouble? {x : Float} (h : readDouble? text = some x) :
    ∀ c ∈ text.head?, Text.isBlank c = false := by
  rcases mem_of_readDouble? h with hliteral | ⟨_, hsigned, word, hword, rfl⟩
  · rw [← Grammar.field_eq_literal] at hliteral
    obtain ⟨sign, n, hsign, hproper, rfl⟩ := Grammar.mem_field_iff.mp hliteral
    exact not_isBlank_head_append hsign hproper.not_isBlank_head
  · obtain ⟨sign, hsign, rfl⟩ := Grammar.mem_sign_iff.mp hsigned
    obtain ⟨c, rest, rfl, -, hblank, -⟩ := Grammar.exists_eq_cons_of_mem_name hword
    refine not_isBlank_head_append hsign ?_
    rintro _ ⟨⟩
    exact hblank

end

end DeskCalculator.Number
