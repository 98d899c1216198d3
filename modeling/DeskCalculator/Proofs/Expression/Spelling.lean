import DeskCalculator.Proofs.Expression.Grammar
import DeskCalculator.Proofs.Number.Numerals
import DeskCalculator.Proofs.Reading.Fronts
import DeskCalculator.Proofs.Reading.Spacing

/-!
How the tokens of scientific expressions are spelled.

    name   := (letter | '_') (letter | digit | '_')*
    number := numeral, the exponent of which is introduced by 'e'

The other tokens have one spelling each. The three kinds of words begin with different characters,
so that only words of one kind compete at the front of a text.
-/
namespace DeskCalculator.Expression.Token

open Number Reading

def SpellsName (token : Token) (word : List Char) : Prop :=
  token = identifier (String.ofList word) ∧ IsRun isNameStart isNamePart word

def SpellsNumber (token : Token) (word : List Char) : Prop :=
  token = number (String.ofList word) ∧ ∃ n : Numeral, n.IsProper isExponentMark ∧ word = n.text

def SpellsFixed (token : Token) (word : List Char) : Prop :=
  token.IsFixed ∧ word = token.text.toList

def Spells (token : Token) (word : List Char) : Prop :=
  SpellsName token word ∨ SpellsNumber token word ∨ SpellsFixed token word

theorem not_isDigit_of_isExponentMark (c : Char) (h : isExponentMark c = true) :
    c.isDigit = false := by
  obtain rfl : c = 'e' := by simpa [isExponentMark] using h
  rfl

theorem isExponentMark_of_small (c : Char) (h : isExponentMark c = true) :
    Number.isExponentMark c = true :=
  Bool.or_eq_true_iff.mpr (.inl h)

def isWordPart (c : Char) : Bool :=
  isNamePart c || ['.', '+', '-', '*', '/', ',', '(', ')'].contains c

theorem isWordPart_of_isNamePart {c : Char} (h : isNamePart c = true) : isWordPart c = true := by
  rw [isWordPart, h, Bool.true_or]

theorem isNamePart_of_isNameStart {c : Char} (h : isNameStart c = true) :
    isNamePart c = true := by
  rcases Bool.or_eq_true_iff.mp h with halpha | hline
  · rw [isNamePart, Char.isAlphanum, halpha, Bool.true_or, Bool.true_or]
  · rw [isNamePart, hline, Bool.or_true]

theorem isNamePart_of_isDigit {c : Char} (h : c.isDigit = true) : isNamePart c = true := by
  rw [isNamePart, Char.isAlphanum, h, Bool.or_true, Bool.true_or]

theorem toNat_of_isWordPart {c : Char} (h : isWordPart c = true) :
    33 ≤ c.toNat ∧ c.toNat ≤ 127 := by
  have hrange : ∀ low high : UInt32, low ≤ c.val → c.val ≤ high → 33 ≤ low → high ≤ 127 →
      33 ≤ c.toNat ∧ c.toNat ≤ 127 :=
    fun low high hlow hhigh h33 h127 =>
      ⟨UInt32.le_trans h33 hlow, UInt32.le_trans hhigh h127⟩
  rcases Bool.or_eq_true_iff.mp h with hname | hmark
  · rcases Bool.or_eq_true_iff.mp hname with hletter | hline
    · rcases Bool.or_eq_true_iff.mp hletter with halpha | hdigit
      · rcases Bool.or_eq_true_iff.mp halpha with hcapital | hsmall
        · exact hrange 65 90 (of_decide_eq_true hcapital).1 (of_decide_eq_true hcapital).2
            (by decide) (by decide)
        · obtain ⟨hlow, hhigh⟩ := Bool.and_eq_true_iff.mp hsmall
          exact hrange 97 122 (of_decide_eq_true hlow) (of_decide_eq_true hhigh) (by decide)
            (by decide)
      · obtain ⟨hlow, hhigh⟩ := Bool.and_eq_true_iff.mp hdigit
        exact hrange 48 57 (of_decide_eq_true hlow) (of_decide_eq_true hhigh) (by decide)
          (by decide)
    · obtain rfl := beq_iff_eq.mp hline
      decide
  · have hmarks : (['.', '+', '-', '*', '/', ',', '(', ')'].all fun c =>
        decide (33 ≤ c.toNat ∧ c.toNat ≤ 127)) = true := rfl
    exact of_decide_eq_true (List.all_eq_true.mp hmarks c (List.contains_iff_mem.mp hmark))

theorem utf8Size_of_isWordPart {c : Char} (h : isWordPart c = true) : c.utf8Size = 1 :=
  Char.utf8Size_eq_one_iff.mpr (toNat_of_isWordPart h).2

/-- No white space stands in a word. -/
theorem not_isBlank_of_isWordPart {c : Char} (h : isWordPart c = true) :
    Text.isBlank c = false := by
  obtain ⟨hlow, hhigh⟩ := toNat_of_isWordPart h
  rw [← Bool.not_eq_true]
  simp only [Text.isBlank, Bool.or_eq_true, Bool.and_eq_true, decide_eq_true_eq, beq_iff_eq]
  omega

def IsNumberStart (c : Char) : Prop := c.isDigit = true ∨ c = '.'

instance (c : Char) : Decidable (IsNumberStart c) := inferInstanceAs (Decidable (_ ∨ _))

theorem not_isNumberStart_of_isNameStart {c : Char} (h : isNameStart c = true) :
    ¬IsNumberStart c := by
  rintro (hdigit | rfl)
  · simp only [isNameStart, Bool.or_eq_true, beq_iff_eq] at h
    rcases h with halpha | rfl
    · have hcode : c.val ≤ 57 := of_decide_eq_true (Bool.and_eq_true_iff.mp hdigit).2
      rcases Bool.or_eq_true_iff.mp halpha with hcapital | hsmall
      · have hletter : 65 ≤ c.val := (of_decide_eq_true hcapital).1
        exact absurd (UInt32.le_trans hletter hcode) (by decide)
      · have hletter : 97 ≤ c.val := of_decide_eq_true (Bool.and_eq_true_iff.mp hsmall).1
        exact absurd (UInt32.le_trans hletter hcode) (by decide)
    · exact absurd hdigit (by decide)
  · exact absurd h (by decide)

section

variable {token : Token} {word : List Char}

theorem SpellsName.beginsWith (h : SpellsName token word) :
    BeginsWith (isNameStart · = true) word := by
  obtain ⟨-, c, rest, rfl, hc, -⟩ := h
  exact ⟨c, rest, rfl, hc⟩

theorem SpellsNumber.beginsWith (h : SpellsNumber token word) : BeginsWith IsNumberStart word := by
  obtain ⟨-, n, hproper, rfl⟩ := h
  exact hproper.exists_text_eq_cons

theorem SpellsFixed.beginsWith (h : SpellsFixed token word) :
    BeginsWith (fun c => ¬isNameStart c = true ∧ ¬IsNumberStart c) word := by
  obtain ⟨hfixed, rfl⟩ := h
  cases token with
  | identifier | number | invalid => exact hfixed.elim
  | _ => exact ⟨_, _, rfl, by decide⟩

theorem Spells.ne_nil (h : Spells token word) : word ≠ [] := by
  rcases h with h | h | h <;> exact h.beginsWith.ne_nil

theorem Spells.toList_text (h : Spells token word) : token.text.toList = word := by
  rcases h with ⟨rfl, -⟩ | ⟨rfl, -⟩ | ⟨-, rfl⟩
  · exact String.toList_ofList
  · exact String.toList_ofList
  · rfl

end

theorem finds_name : Finds name? SpellsName := .run rfl fun _ _ => rfl

/-- Numbers are found as far as they go. -/
theorem finds_number : Finds number? SpellsNumber where
  sound := by
    intro text token length h
    obtain ⟨⟨n, rest⟩, hscan, htaken⟩ := Option.map_eq_some_iff.mp h
    obtain ⟨rfl, rfl⟩ := Prod.mk.inj htaken
    obtain ⟨hproper, rfl⟩ := Numeral.scan?_spec hscan
    exact ⟨n.text, rfl, List.prefix_append _ _, rfl, n, hproper, rfl⟩
  complete := by
    rintro token _ ⟨-, m, hm, rfl⟩ behind
    obtain ⟨n, rest, hscan, hlength⟩ :=
      Numeral.exists_scan?_append not_isDigit_of_isExponentMark rfl hm behind
    exact ⟨_, _, congrArg (Option.map _) hscan, hlength⟩

theorem finds_symbol : Finds symbol? SpellsFixed where
  sound := by
    intro text token length h
    unfold symbol? at h
    split at h
    case h_9 => exact nomatch h
    all_goals
      obtain ⟨rfl, rfl⟩ := Prod.mk.inj (Option.some.inj h)
      exact ⟨_, rfl, ⟨_, rfl⟩, trivial, rfl⟩
  complete := by
    rintro token _ ⟨hfixed, rfl⟩ behind
    cases token with
    | identifier | number | invalid => exact hfixed.elim
    | star =>
      -- a star in front of another one is taken together with it
      by_cases hpower : behind.head? = some '*'
      · obtain ⟨rest, rfl⟩ := List.head?_eq_some_iff.mp hpower
        exact ⟨power, 2, rfl, by decide⟩
      · have htaken : symbol? ('*' :: behind) = some (star, 1) := by
          cases behind with
          | nil => rfl
          | cons c rest => simp_all [symbol?]
        exact ⟨star, 1, htaken, le_rfl⟩
    | _ => exact ⟨_, _, rfl, le_rfl⟩

theorem finds_front : Finds front? Spells := by
  have hunnamed : Finds (fun text => number? text <|> symbol? text) fun token word =>
      SpellsNumber token word ∨ SpellsFixed token word :=
    finds_number.orElse finds_symbol (fun _ _ h => h.beginsWith) fun _ _ h =>
      h.beginsWith.mono fun _ hc => hc.2
  refine finds_name.orElse hunnamed (fun _ _ h => h.beginsWith) ?_
  rintro token word (h | h)
  · exact h.beginsWith.mono fun _ hc hc' => not_isNumberStart_of_isNameStart hc' hc
  · exact h.beginsWith.mono fun _ hc => hc.1

/-- The tokens of expressions are taken by their rules. -/
theorem isRuledBy : IsRuledBy Token Spells where
  finds := finds_front
  text h := h.toList_text
  nonempty h := h.ne_nil
  valid word := by
    rintro (⟨h, -⟩ | ⟨h, -⟩ | ⟨h, -⟩)
    · exact nomatch h
    · exact nomatch h
    · exact h
  separator _ := utf8Size_of_isSeparator

section

variable {token other : Token} {word : List Char}

/-- Words are made of few characters, all of them of one byte. -/
theorem Spells.isWordPart (h : Spells token word) : ∀ c ∈ word, isWordPart c = true := by
  intro c hc
  rcases h with ⟨-, first, rest, rfl, hfirst, hrest⟩ | ⟨-, n, hproper, rfl⟩ | ⟨hfixed, rfl⟩
  · rcases List.mem_cons.mp hc with rfl | hbehind
    · exact isWordPart_of_isNamePart (isNamePart_of_isNameStart hfirst)
    · exact isWordPart_of_isNamePart (hrest c hbehind)
  · rcases hproper.of_mem_text hc with hdigit | rfl | hmark | hsign
    · exact isWordPart_of_isNamePart (isNamePart_of_isDigit hdigit)
    · rfl
    · obtain rfl : c = 'e' := by simpa [isExponentMark] using hmark
      rfl
    · have hcases : c = '+' ∨ c = '-' := by simpa [isSign] using hsign
      rcases hcases with rfl | rfl <;> rfl
  · have hall : token.text.toList.all Token.isWordPart = true := by
      cases token with
      | identifier | number | invalid => exact hfixed.elim
      | _ => rfl
    exact List.all_eq_true.mp hall c hc

theorem Spells.solid (h : Spells token word) : ∀ c ∈ word, Text.isSeparator c = false :=
  fun c hc => not_isSeparator_of (p := Token.isWordPart) (by decide) (h.isWordPart c hc)

/-- A fixed token is the one that its spelling gives. -/
theorem symbol?_of_isFixed (h : token.IsFixed) :
    (symbol? token.text.toList).map Prod.fst = some token := by
  cases token with
  | identifier | number | invalid => exact h.elim
  | _ => rfl

/-- A word spells one token only. -/
theorem Spells.told (h : Spells token word) (hother : Spells other word) : other = token := by
  rcases h with h | h | h
  · rcases hother with h' | h' | h'
    · exact h'.1.trans h.1.symm
    · exact (h.beginsWith.absurd h'.beginsWith fun _ => not_isNumberStart_of_isNameStart).elim
    · exact (h.beginsWith.absurd h'.beginsWith fun _ hc hc' => hc'.1 hc).elim
  · rcases hother with h' | h' | h'
    · exact (h'.beginsWith.absurd h.beginsWith fun _ => not_isNumberStart_of_isNameStart).elim
    · exact h'.1.trans h.1.symm
    · exact (h.beginsWith.absurd h'.beginsWith fun _ hc hc' => hc'.2 hc).elim
  · rcases hother with h' | h' | h'
    · exact (h'.beginsWith.absurd h.beginsWith fun _ hc hc' => hc'.1 hc).elim
    · exact (h'.beginsWith.absurd h.beginsWith fun _ hc hc' => hc'.2 hc).elim
    · have hsame := symbol?_of_isFixed h'.1
      rw [← h'.2, h.2, symbol?_of_isFixed h.1] at hsame
      exact (Option.some.inj hsame).symm

end

def IsCharacter (c : Char) : Prop := Text.isSeparator c = true ∨ isWordPart c = true

instance (c : Char) : Decidable (IsCharacter c) := inferInstanceAs (Decidable (_ ∨ _))

theorem isAlphabet : IsAlphabet Token Spells IsCharacter where
  separator h := .inl h
  word h c hc := .inr (h.isWordPart c hc)

theorem IsCharacter.utf8Size_eq_one {c : Char} (h : IsCharacter c) : c.utf8Size = 1 :=
  h.elim utf8Size_of_isSeparator utf8Size_of_isWordPart

theorem isLegible : IsLegible Token Spells where
  toIsRuledBy := isRuledBy
  solid h := h.solid
  told h hother := h.told hother

end DeskCalculator.Expression.Token
