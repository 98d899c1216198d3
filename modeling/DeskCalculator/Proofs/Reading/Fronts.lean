import DeskCalculator.Proofs.Reading.Tiling

/-!
What stands in front of a lexeme. Scanning can be cut between two lexemes: what is left to scan then
begins with a token at once, and the text in front of it holds the words of the lexemes in front and
separators, if none of these lexemes is invalid. So a property of separators and of the characters
of words holds for all characters up to the first invalid token.
-/
namespace DeskCalculator.Reading

variable {τ : Type} [Vocabulary τ] {Spells : τ → List Char → Prop}

structure IsAlphabet (τ : Type) [Vocabulary τ] (Spells : τ → List Char → Prop) (P : Char → Prop) :
    Prop where
  separator : ∀ {c}, Vocabulary.isSeparator τ c = true → P c
  word : ∀ {token word}, Spells token word → ∀ c ∈ word, P c

section

variable {P : Char → Prop}

theorem IsRuledBy.exists_front (h : IsRuledBy τ Spells) (halphabet : IsAlphabet τ Spells P)
    {offset : Nat} {text : List Char} {left right : List (Lexeme τ)}
    (hscan : scanFrom offset text = left ++ right)
    (hvalid : ∀ lexeme ∈ left, lexeme.token ≠ Vocabulary.invalid) :
    ∃ before behind, text = before ++ behind ∧ (∀ c ∈ before, P c) ∧
      (∀ c ∈ behind.head?, Vocabulary.isSeparator τ c = false) ∧
      scanFrom (offset + byteLength before) behind = right := by
  fun_induction scanFrom (τ := τ) offset text generalizing left with
  | case1 offset =>
    obtain ⟨-, rfl⟩ := List.append_eq_nil_iff.mp hscan.symm
    exact ⟨[], [], rfl, List.forall_mem_nil _, fun c hc => absurd hc (Option.not_mem_none c),
      by rw [scanFrom]⟩
  | case2 offset c rest hc ih =>
    obtain ⟨before, behind, rfl, hbefore, hhead, hrest⟩ := ih hscan hvalid
    have hfirst : P c := halphabet.separator hc
    refine ⟨c :: before, behind, rfl, List.forall_mem_cons.mpr ⟨hfirst, hbefore⟩, hhead, ?_⟩
    rw [byteLength_cons, ← Nat.add_assoc, hrest]
  | case3 offset c rest hc token length hfront stop =>
    rename_i ih
    cases left with
    | nil =>
      refine ⟨[], c :: rest, rfl, List.forall_mem_nil _, ?_, ?_⟩
      · intro d hd
        obtain rfl := Option.some.inj hd
        exact Bool.eq_false_iff.mpr hc
      · rw [byteLength_nil, Nat.add_zero, scanFrom, if_neg hc, hfront]
        exact hscan
    | cons first others =>
      obtain ⟨rfl, hrest⟩ := List.cons.inj hscan
      obtain ⟨hfirst, hothers⟩ := List.forall_mem_cons.mp hvalid
      obtain ⟨before, behind, hbehind, hbefore, hhead, hscanned⟩ := ih hrest hothers
      obtain ⟨word, after, htext, -, htake, hdrop, htoken⟩ := h.exists_word hfront
      have hspelled : Spells token word := (htoken.munch hfirst).1.spelled
      refine ⟨word ++ before, behind, ?_, ?_, hhead, ?_⟩
      · rw [htext, List.append_assoc, ← hbehind, hdrop]
      · exact List.forall_mem_append.mpr ⟨halphabet.word hspelled, hbefore⟩
      · rw [byteLength_append, ← Nat.add_assoc, ← htake, hscanned]

/-- In a text without invalid tokens every character belongs to a word or separates words. -/
theorem IsRuledBy.forall_mem_of_valid (h : IsRuledBy τ Spells) (halphabet : IsAlphabet τ Spells P)
    {text : String}
    (hvalid : ∀ lexeme ∈ scan τ text, lexeme.token ≠ Vocabulary.invalid) :
    ∀ c ∈ text.toList, P c := by
  obtain ⟨before, behind, htext, hbefore, hhead, hscan⟩ :=
    h.exists_front halphabet (List.append_nil (scan τ text)).symm hvalid
  cases behind with
  | nil =>
    rw [htext, List.append_nil]
    exact hbefore
  | cons c rest =>
    have hc : Vocabulary.isSeparator τ c = false := hhead c rfl
    rw [scanFrom, if_neg (by simp [hc])] at hscan
    exact absurd hscan (List.cons_ne_nil _ _)

/-- A lexeme stands behind characters of words and separators if no lexeme in front of it is
invalid. -/
theorem IsRuledBy.exists_place (h : IsRuledBy τ Spells) (halphabet : IsAlphabet τ Spells P)
    {text : String}
    {left right : List (Lexeme τ)} {lexeme : Lexeme τ}
    (hscan : scan τ text = left ++ lexeme :: right)
    (hvalid : ∀ lexeme ∈ left, lexeme.token ≠ Vocabulary.invalid) :
    ∃ before word behind, text.toList = before ++ (word ++ behind) ∧ (∀ c ∈ before, P c) ∧
      lexeme.span = ⟨byteLength before, byteLength (before ++ word)⟩ ∧
      IsTokenOf Spells (word ++ behind) lexeme.token word := by
  obtain ⟨before, behind, htext, hbefore, hhead, hscan⟩ :=
    h.exists_front halphabet hscan hvalid
  cases behind with
  | nil =>
    rw [scanFrom] at hscan
    exact absurd hscan.symm (List.cons_ne_nil _ _)
  | cons c rest =>
    have hc : Vocabulary.isSeparator τ c = false := hhead c rfl
    obtain ⟨word, after, hbehind, -, htake, -, htoken⟩ :=
      h.exists_word (Prod.eta (Reading.frontToken (τ := τ) (c :: rest))).symm
    rw [scanFrom, if_neg (by simp [hc])] at hscan
    dsimp only at hscan
    obtain ⟨rfl, -⟩ := List.cons.inj hscan
    refine ⟨before, word, after, hbehind ▸ htext, hbefore, ?_, htoken⟩
    rw [htake, byteLength_append, Nat.zero_add]

end

end DeskCalculator.Reading
