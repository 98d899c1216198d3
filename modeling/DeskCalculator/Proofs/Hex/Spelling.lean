import DeskCalculator.Proofs.Hex.Recognition
import DeskCalculator.Proofs.Reading.Spacing

/-!
How the tokens of hexadecimal expressions are spelled. A literal is a run of hexadecimal digits, and
the other tokens have one spelling each, of one character that is no digit.
-/
namespace DeskCalculator.Hex.Token

open Number Reading

def SpellsLiteral (token : Token) (word : List Char) : Prop :=
  token = literal (String.ofList word) ∧ IsRun isHexDigit isHexDigit word

def SpellsFixed (token : Token) (word : List Char) : Prop :=
  token.IsFixed ∧ word = token.text.toList

def Spells (token : Token) (word : List Char) : Prop :=
  SpellsFixed token word ∨ SpellsLiteral token word

def symbol? : List Char → Option (Token × Nat)
  | '+' :: _ => some (plus, 1)
  | '-' :: _ => some (minus, 1)
  | '*' :: _ => some (star, 1)
  | '/' :: _ => some (slash, 1)
  | _ => none

def literal? : List Char → Option (Token × Nat)
  | [] => none
  | c :: rest =>
    if isHexDigit c then
      let digits := c :: rest.takeWhile isHexDigit
      some (literal (String.ofList digits), digits.length)
    else none

theorem front?_eq : front? = fun text => symbol? text <|> literal? text := by
  funext text
  unfold front?
  split
  case h_6 c rest _ _ _ _ =>
    have hnone : symbol? (c :: rest) = none := by simp_all [symbol?]
    rw [hnone]
    rfl
  all_goals rfl

section

variable {token : Token} {word : List Char}

theorem SpellsLiteral.beginsWith (h : SpellsLiteral token word) :
    BeginsWith (isHexDigit · = true) word := by
  obtain ⟨-, c, rest, rfl, hc, -⟩ := h
  exact ⟨c, rest, rfl, hc⟩

theorem SpellsFixed.beginsWith (h : SpellsFixed token word) :
    BeginsWith (¬isHexDigit · = true) word := by
  obtain ⟨hfixed, rfl⟩ := h
  cases token with
  | literal | invalid => exact hfixed.elim
  | _ => exact ⟨_, _, rfl, by decide⟩

theorem Spells.ne_nil (h : Spells token word) : word ≠ [] := by
  rcases h with h | h <;> exact h.beginsWith.ne_nil

theorem Spells.toList_text (h : Spells token word) : token.text.toList = word := by
  rcases h with ⟨-, rfl⟩ | ⟨rfl, -⟩
  · rfl
  · exact String.toList_ofList

end

theorem finds_literal : Finds literal? SpellsLiteral := .run rfl fun _ _ => rfl

theorem finds_symbol : Finds symbol? SpellsFixed where
  sound := by
    intro text token length h
    unfold symbol? at h
    split at h
    case h_5 => exact nomatch h
    all_goals
      obtain ⟨rfl, rfl⟩ := Prod.mk.inj (Option.some.inj h)
      exact ⟨_, rfl, ⟨_, rfl⟩, trivial, rfl⟩
  complete := by
    rintro token _ ⟨hfixed, rfl⟩ behind
    cases token with
    | literal | invalid => exact hfixed.elim
    | _ => exact ⟨_, _, rfl, le_rfl⟩

theorem finds_front : Finds front? Spells := by
  rw [front?_eq]
  exact finds_symbol.orElse finds_literal (fun _ _ h => h.beginsWith) fun _ _ h =>
    h.beginsWith.mono fun _ hc => not_not_intro hc

theorem isRuledBy : IsRuledBy Token Spells where
  finds := finds_front
  text h := h.toList_text
  nonempty h := h.ne_nil
  valid word := by
    rintro (⟨h, -⟩ | ⟨h, -⟩)
    · exact h
    · exact nomatch h
  separator _ := utf8Size_of_isSeparator

section

variable {token other : Token} {word : List Char}

/-- No word holds a separator. -/
theorem Spells.solid (h : Spells token word) : ∀ c ∈ word, Text.isSeparator c = false := by
  intro c hc
  rcases h with ⟨hfixed, rfl⟩ | ⟨-, first, rest, rfl, hfirst, hrest⟩
  · have hnone : token.text.toList.any Text.isSeparator = false := by
      cases token with
      | literal | invalid => exact hfixed.elim
      | _ => decide
    exact Bool.eq_false_iff.mpr (List.any_eq_false.mp hnone c hc)
  · refine not_isSeparator_of (p := isHexDigit) (by decide) ?_
    rcases List.mem_cons.mp hc with rfl | hbehind
    · exact hfirst
    · exact hrest c hbehind

/-- A fixed token is the one that its spelling gives. -/
theorem symbol?_of_isFixed (h : token.IsFixed) :
    (symbol? token.text.toList).map Prod.fst = some token := by
  cases token with
  | literal | invalid => exact h.elim
  | _ => rfl

/-- A word spells one token only. -/
theorem Spells.told (h : Spells token word) (hother : Spells other word) : other = token := by
  rcases h with h | h
  · rcases hother with h' | h'
    · have hsame := symbol?_of_isFixed h'.1
      rw [← h'.2, h.2, symbol?_of_isFixed h.1] at hsame
      exact (Option.some.inj hsame).symm
    · exact (h'.beginsWith.absurd h.beginsWith fun _ hc hc' => hc' hc).elim
  · rcases hother with h' | h'
    · exact (h.beginsWith.absurd h'.beginsWith fun _ hc hc' => hc' hc).elim
    · exact h'.1.trans h.1.symm

end

theorem isLegible : IsLegible Token Spells where
  toIsRuledBy := isRuledBy
  solid h := h.solid
  told h hother := h.told hother

end DeskCalculator.Hex.Token
