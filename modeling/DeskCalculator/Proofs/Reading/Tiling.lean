import DeskCalculator.Proofs.Reading.Munching
import DeskCalculator.Text.Blank

/-!
Scanning tiles a text. The lexemes stand one behind the other, each covers characters of the text
that are the longest word by the rules where it begins, an invalid token covers one character where
no word of the rules begins, and what no lexeme covers are separators.
-/
namespace DeskCalculator.Reading

variable {τ : Type} [Vocabulary τ] {Spells : τ → List Char → Prop}

@[simp] theorem byteLength_nil : byteLength [] = 0 := rfl

@[simp] theorem byteLength_cons (c : Char) (rest : List Char) :
    byteLength (c :: rest) = c.utf8Size + byteLength rest := rfl

@[simp] theorem byteLength_append (left right : List Char) :
    byteLength (left ++ right) = byteLength left + byteLength right := by
  induction left with
  | nil => simp
  | cons c rest ih => simp [ih, Nat.add_assoc]

theorem byteLength_pos {text : List Char} (h : text ≠ []) : 0 < byteLength text := by
  obtain ⟨c, rest, rfl⟩ := List.exists_cons_of_ne_nil h
  exact Nat.add_pos_left c.utf8Size_pos _

theorem utf8Size_of_isSeparator {c : Char} (h : Text.isSeparator c = true) : c.utf8Size = 1 := by
  simp only [Text.isSeparator, Bool.or_eq_true, beq_iff_eq] at h
  rcases h with ((rfl | rfl) | rfl) | rfl <;> rfl

/-- No separator is of a kind to which none of the four belongs. -/
theorem not_isSeparator_of {p : Char → Bool} (hp : [' ', '\t', '\n', '\x0c'].any p = false)
    {c : Char} (hc : p c = true) : Text.isSeparator c = false := by
  rw [← Bool.not_eq_true]
  intro hseparator
  have hmem : c ∈ [' ', '\t', '\n', '\x0c'] := by
    simpa [Text.isSeparator, or_assoc] using hseparator
  exact List.any_eq_false.mp hp c hmem hc

theorem utf8ByteSize_ofList (text : List Char) :
    (String.ofList text).utf8ByteSize = byteLength text := by
  induction text with
  | nil => rfl
  | cons c rest ih =>
    rw [String.ofList_cons, String.utf8ByteSize_append, String.utf8ByteSize_singleton, ih,
      byteLength_cons]

theorem byteLength_toList (text : String) : byteLength text.toList = text.utf8ByteSize := by
  rw [← utf8ByteSize_ofList, String.ofList_toList]

/-- Whether a vocabulary takes its tokens by rules. -/
structure IsRuledBy (τ : Type) [Vocabulary τ] (Spells : τ → List Char → Prop) : Prop where
  finds : Finds Vocabulary.front? Spells
  text : ∀ {token word}, Spells token word → (Vocabulary.text token).toList = word
  nonempty : ∀ {token word}, Spells token word → word ≠ []
  valid : ∀ word, ¬Spells Vocabulary.invalid word
  separator : ∀ c, Vocabulary.isSeparator τ c = true → c.utf8Size = 1

/-- Whether a token is the right one for a word at the front of a text: it is spelled so, and the
word is as long as possible, or it is invalid, and stands for a character with which no word of the
rules begins there. -/
structure IsTokenOf (Spells : τ → List Char → Prop) (text : List Char) (token : τ)
    (word : List Char) : Prop where
  munch : token ≠ Vocabulary.invalid → IsMunch Spells text token word ∧
    (Vocabulary.text token).toList = word
  invalid : token = Vocabulary.invalid → word.length = 1 ∧
    ∀ other front, front <+: text → ¬Spells other front

/-- Whether lexemes tile a text whose first character is the byte `offset`. -/
structure Tiles (Spells : τ → List Char → Prop) (offset : Nat) (text : List Char)
    (lexemes : List (Lexeme τ)) : Prop where
  nonempty : ∀ lexeme ∈ lexemes, lexeme.span.start < lexeme.span.stop
  ordered : lexemes.Pairwise fun first second => first.span.stop ≤ second.span.start
  covered : ∀ lexeme ∈ lexemes, ∃ before word behind, text = before ++ (word ++ behind) ∧
    lexeme.span = ⟨offset + byteLength before, offset + byteLength (before ++ word)⟩ ∧
    IsTokenOf Spells (word ++ behind) lexeme.token word
  separated : ∀ byte, offset ≤ byte → byte < offset + byteLength text →
    (∀ lexeme ∈ lexemes, ¬(lexeme.span.start ≤ byte ∧ byte < lexeme.span.stop)) →
    ∃ before c behind, text = before ++ c :: behind ∧ byte = offset + byteLength before ∧
      Vocabulary.isSeparator τ c = true

namespace Tiles

theorem nil (offset : Nat) : Tiles Spells offset [] ([] : List (Lexeme τ)) where
  nonempty := nofun
  ordered := .nil
  covered := nofun
  separated _ hstart hstop := absurd hstop (Nat.not_lt.mpr hstart)

variable {offset : Nat} {c : Char} {word rest : List Char} {lexemes : List (Lexeme τ)} {token : τ}

theorem separator (h : Tiles Spells (offset + c.utf8Size) rest lexemes)
    (hc : Vocabulary.isSeparator τ c = true) (hsize : c.utf8Size = 1) :
    Tiles Spells offset (c :: rest) lexemes where
  nonempty := h.nonempty
  ordered := h.ordered
  covered lexeme hmem := by
    obtain ⟨before, word, behind, rfl, hspan, hright⟩ := h.covered lexeme hmem
    refine ⟨c :: before, word, behind, rfl, ?_, hright⟩
    rw [hspan, List.cons_append, byteLength_cons, byteLength_cons, Nat.add_assoc, Nat.add_assoc]
  separated byte hstart hstop huncovered := by
    by_cases hfirst : byte = offset
    · exact ⟨[], c, rest, rfl, hfirst, hc⟩
    · rw [byteLength_cons] at hstop
      obtain ⟨before, d, behind, rfl, hbyte, hd⟩ :=
        h.separated byte (by omega) (by omega) huncovered
      exact ⟨c :: before, d, behind, rfl, hbyte.trans (Nat.add_assoc ..), hd⟩

theorem start_le (h : Tiles Spells offset word lexemes) {lexeme : Lexeme τ}
    (hmem : lexeme ∈ lexemes) : offset ≤ lexeme.span.start := by
  obtain ⟨before, _, _, -, hspan, -⟩ := h.covered lexeme hmem
  rw [hspan]
  exact Nat.le_add_right _ _

theorem cons (h : Tiles Spells (offset + byteLength word) rest lexemes) (hword : word ≠ [])
    (hright : IsTokenOf Spells (word ++ rest) token word) :
    Tiles Spells offset (word ++ rest)
      (⟨token, offset, offset + byteLength word⟩ :: lexemes) where
  nonempty := List.forall_mem_cons.mpr ⟨Nat.lt_add_of_pos_right (byteLength_pos hword), h.nonempty⟩
  ordered := List.pairwise_cons.mpr ⟨fun _ hmem => h.start_le hmem, h.ordered⟩
  covered := by
    refine List.forall_mem_cons.mpr ⟨⟨[], word, rest, rfl, rfl, hright⟩, ?_⟩
    intro lexeme hmem
    obtain ⟨before, other, behind, rfl, hspan, hother⟩ := h.covered lexeme hmem
    refine ⟨word ++ before, other, behind, (List.append_assoc ..).symm, ?_, hother⟩
    rw [hspan, List.append_assoc, byteLength_append word, byteLength_append word, Nat.add_assoc,
      Nat.add_assoc]
  separated byte hstart hstop huncovered := by
    obtain ⟨hfirst, hlater⟩ := List.forall_mem_cons.mp huncovered
    rw [byteLength_append] at hstop
    have hbehind : offset + byteLength word ≤ byte :=
      Nat.le_of_not_lt fun hlt => hfirst ⟨hstart, hlt⟩
    obtain ⟨before, c, behind, rfl, hbyte, hc⟩ := h.separated byte hbehind (by omega) hlater
    refine ⟨word ++ before, c, behind, (List.append_assoc ..).symm, ?_, hc⟩
    rw [hbyte, byteLength_append, Nat.add_assoc]

end Tiles

theorem IsRuledBy.frontToken (h : IsRuledBy τ Spells) {text : List Char} (hne : text ≠ [])
    {token : τ} {length : Nat} (hfront : frontToken text = (token, length)) :
    ∃ word behind, text = word ++ behind ∧ word.length = length ∧ word ≠ [] ∧
      IsTokenOf Spells text token word := by
  unfold Reading.frontToken at hfront
  cases hfound : Vocabulary.front? (τ := τ) text with
  | some taken =>
    rw [hfound] at hfront
    obtain ⟨rfl, rfl⟩ := Prod.mk.inj hfront
    obtain ⟨word, hlength, hmunch⟩ := h.finds.exists_isMunch hfound
    obtain ⟨behind, rfl⟩ := hmunch.front
    have hword : word ≠ [] := h.nonempty hmunch.spelled
    have hpos : 0 < word.length := List.length_pos_iff.mpr hword
    refine ⟨word, behind, rfl, by omega, hword, fun _ => ⟨hmunch, h.text hmunch.spelled⟩, ?_⟩
    intro hinvalid
    exact absurd (hinvalid ▸ hmunch.spelled) (h.valid word)
  | none =>
    rw [hfound] at hfront
    obtain ⟨rfl, rfl⟩ := Prod.mk.inj hfront
    obtain ⟨c, rest, rfl⟩ := List.exists_cons_of_ne_nil hne
    exact ⟨[c], rest, rfl, rfl, nofun, fun hvalid => absurd rfl hvalid,
      fun _ => ⟨rfl, h.finds.not_spells_of_eq_none hfound⟩⟩

/-- The word of the token in front of a text, and the text behind it. -/
theorem IsRuledBy.exists_word (h : IsRuledBy τ Spells) {c : Char} {rest : List Char} {token : τ}
    {length : Nat} (hfront : Reading.frontToken (c :: rest) = (token, length)) :
    ∃ word behind, c :: rest = word ++ behind ∧ word ≠ [] ∧ (c :: rest).take length = word ∧
      rest.drop (length - 1) = behind ∧ IsTokenOf Spells (word ++ behind) token word := by
  obtain ⟨word, behind, htext, rfl, hword, htoken⟩ := h.frontToken (List.cons_ne_nil c rest) hfront
  refine ⟨word, behind, htext, hword, ?_, ?_, htext ▸ htoken⟩
  · rw [htext, List.take_left]
  · obtain ⟨first, others, rfl⟩ := List.exists_cons_of_ne_nil hword
    rw [(List.cons.inj htext).2]
    exact List.drop_left

/-- What is scanned tiles the text. -/
theorem IsRuledBy.tiles_scanFrom (h : IsRuledBy τ Spells) (offset : Nat) (text : List Char) :
    Tiles Spells offset text (scanFrom (τ := τ) offset text) := by
  fun_induction scanFrom (τ := τ) offset text with
  | case1 offset => exact .nil offset
  | case2 offset c rest hseparator ih => exact ih.separator hseparator (h.separator c hseparator)
  | case3 offset c rest hseparator token length hfront stop ih =>
    obtain ⟨word, behind, htext, hword, htake, hdrop, htoken⟩ := h.exists_word hfront
    have hstop : stop = offset + byteLength word := congrArg (offset + byteLength ·) htake
    rw [hdrop, hstop] at ih
    rw [hdrop, hstop, htext]
    exact ih.cons hword htoken

end DeskCalculator.Reading
