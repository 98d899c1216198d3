import DeskCalculator.Reading.Lexeme

/-!
Scanning without regard to places. The tokens of a text do not depend on the byte at which it
begins, so they can be taken from its front one after the other. Each of them is the token in front
of some tail of the text that does not begin with a separator.
-/
namespace DeskCalculator.Reading

variable {τ : Type} [Vocabulary τ]

theorem map_token_scanFrom_eq (offset other : Nat) (text : List Char) :
    (scanFrom (τ := τ) offset text).map Lexeme.token =
      (scanFrom (τ := τ) other text).map Lexeme.token := by
  fun_induction scanFrom (τ := τ) offset text generalizing other with
  | case1 => simp [scanFrom]
  | case2 offset c rest hseparator ih =>
    rw [scanFrom, if_pos hseparator]
    exact ih _
  | case3 offset c rest hseparator token length hfront stop ih =>
    rw [scanFrom, if_neg hseparator, hfront]
    simp only [List.map_cons, List.cons.injEq, true_and]
    exact ih _

def tokensOf (τ : Type) [Vocabulary τ] (text : List Char) : List τ :=
  (scanFrom 0 text).map Lexeme.token

theorem map_token_scan (text : String) :
    (scan τ text).map Lexeme.token = tokensOf τ text.toList := rfl

@[simp] theorem tokensOf_nil : tokensOf τ [] = [] := by
  simp [tokensOf, scanFrom]

theorem tokensOf_cons_separator {c : Char} (h : Vocabulary.isSeparator τ c = true)
    (rest : List Char) : tokensOf τ (c :: rest) = tokensOf τ rest := by
  unfold tokensOf
  rw [scanFrom, if_pos h]
  exact map_token_scanFrom_eq _ _ rest

theorem tokensOf_append_separators {blanks : List Char}
    (h : ∀ c ∈ blanks, Vocabulary.isSeparator τ c = true) (rest : List Char) :
    tokensOf τ (blanks ++ rest) = tokensOf τ rest := by
  induction blanks with
  | nil => rfl
  | cons c blanks ih =>
    rw [List.cons_append, tokensOf_cons_separator (h c (List.mem_cons_self ..))]
    exact ih fun d hd => h d (List.mem_cons_of_mem c hd)

/-- A text that begins with the spelling of a token gives this token first. -/
theorem tokensOf_cons_append {c : Char} {word rest : List Char} {token : τ}
    (hseparator : Vocabulary.isSeparator τ c = false)
    (hfront : Vocabulary.front? (c :: (word ++ rest)) = some (token, word.length + 1)) :
    tokensOf τ (c :: (word ++ rest)) = token :: tokensOf τ rest := by
  have hlength : max 1 (word.length + 1) - 1 = word.length := by omega
  unfold tokensOf
  rw [scanFrom, if_neg (by simp [hseparator])]
  simp only [frontToken, hfront, hlength, List.map_cons, List.drop_left]
  rw [map_token_scanFrom_eq _ 0 rest]

theorem exists_suffix_of_mem_scanFrom {offset : Nat} {text : List Char} {lexeme : Lexeme τ}
    (h : lexeme ∈ scanFrom offset text) :
    ∃ c rest, (c :: rest) <:+ text ∧ Vocabulary.isSeparator τ c = false ∧
      lexeme.token = (frontToken (τ := τ) (c :: rest)).1 := by
  fun_induction scanFrom (τ := τ) offset text with
  | case1 => simp at h
  | case2 offset c rest hseparator ih =>
    obtain ⟨d, tail, hsuffix, hd, htoken⟩ := ih h
    exact ⟨d, tail, hsuffix.trans (List.suffix_cons c rest), hd, htoken⟩
  | case3 offset c rest hseparator token length hfront stop ih =>
    rcases List.mem_cons.mp h with rfl | hrest
    · exact ⟨c, rest, List.suffix_refl _, by simpa using hseparator, by rw [hfront]⟩
    · obtain ⟨d, tail, hsuffix, hd, htoken⟩ := ih hrest
      have hdrop : rest.drop (length - 1) <:+ c :: rest :=
        (List.drop_suffix _ rest).trans (List.suffix_cons c rest)
      exact ⟨d, tail, hsuffix.trans hdrop, hd, htoken⟩

end DeskCalculator.Reading
