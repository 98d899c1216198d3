import DeskCalculator.Toml.Quoted
import Mathlib.Data.Nat.Notation
import Mathlib.Logic.Basic
import Mathlib.Tactic.SplitIfs

/-!
Strings of every style read back. A character is written so that it is read as itself, whatever
follows. Where quotes stand for themselves in a string that spans lines, at most two of them stand
together, so three always close it.
-/
namespace DeskCalculator.Toml

section Encoding

variable {c letter : Char} {long : Bool}

theorem scalar?_fourDigits (h : needsEscape c = true) :
    scalar? (fourDigits c.toNat) = some c := by
  have hcode : c.toNat < 0x80 := by
    simp only [needsEscape, isPlain, Bool.and_eq_true, Bool.not_eq_true', Bool.or_eq_false_iff,
      Bool.and_eq_false_iff, decide_eq_false_iff_not, bne_eq_false_iff_eq] at h
    omega
  have hdigits : ∀ n < 0x80, scalar? (fourDigits n) = some (Char.ofNat n) := by decide +kernel
  rw [hdigits _ hcode, Char.ofNat_toNat]

theorem isPlain_ne (h : isPlain c = true) : c ≠ '\n' ∧ c ≠ '\r' := by
  constructor
  · rintro rfl
    exact nomatch h
  · rintro rfl
    exact nomatch h

/-- A character is written behind a backslash, by its code, as a line end, or as it is. -/
theorem encodeChar_cases (long : Bool) (c : Char) :
    (∃ letter, encodeChar long c = ['\\', letter] ∧ escaped? letter = some c) ∨
    (encodeChar long c = '\\' :: 'u' :: fourDigits c.toNat ∧
      scalar? (fourDigits c.toNat) = some c) ∨
    (encodeChar long c = [c] ∧ c = '\n' ∧ long = true) ∨
    (encodeChar long c = [c] ∧ isPlain c = true ∧ c ≠ '\\') := by
  unfold encodeChar
  split_ifs with hb ht hn hlong hf hr hbackslash hescape
  · exact .inl ⟨'b', rfl, hb ▸ rfl⟩
  · exact .inl ⟨'t', rfl, ht ▸ rfl⟩
  · exact .inr (.inr (.inl ⟨hn ▸ rfl, hn, hlong⟩))
  · exact .inl ⟨'n', rfl, hn ▸ rfl⟩
  · exact .inl ⟨'f', rfl, hf ▸ rfl⟩
  · exact .inl ⟨'r', rfl, hr ▸ rfl⟩
  · exact .inl ⟨'\\', rfl, by rw [hbackslash]; rfl⟩
  · exact .inr (.inl ⟨rfl, scalar?_fourDigits hescape⟩)
  · have hplain : isPlain c = true := by simpa [needsEscape, hn] using hescape
    exact .inr (.inr (.inr ⟨rfl, hplain, hbackslash⟩))

theorem exists_encodeChar_eq_cons (long : Bool) (hquote : c ≠ '"') :
    ∃ d ds, encodeChar long c = d :: ds ∧ d ≠ '"' ∧ d ≠ '\r' ∧ (d = '\n' → c = '\n') := by
  rcases encodeChar_cases long c with ⟨letter, hencode, -⟩ | ⟨hencode, -⟩ |
    ⟨hencode, hfeed, -⟩ | ⟨hencode, hplain, -⟩
  · exact ⟨_, _, hencode, by decide, by decide, fun h => nomatch h⟩
  · exact ⟨_, _, hencode, by decide, by decide, fun h => nomatch h⟩
  · exact ⟨_, _, hencode, hquote, by rw [hfeed]; decide, id⟩
  · exact ⟨_, _, hencode, hquote, (isPlain_ne hplain).2, id⟩

/-- No letter of an escape begins a code or ends a line. -/
theorem escaped?_letter (h : escaped? letter = some c) :
    letter ≠ 'u' ∧ letter ≠ 'U' ∧ isBlank letter = false ∧ letter ≠ '\n' ∧ letter ≠ '\r' := by
  unfold escaped? at h
  split at h
  case h_8 => exact nomatch h
  all_goals decide

theorem encodeBasic_quote_of_ge {run : ℕ} (h : (if long then 2 else 0) ≤ run)
    (text : List Char) :
    encodeBasic long run ('"' :: text) = '\\' :: '"' :: encodeBasic long 0 text := by
  rw [encodeBasic, if_pos rfl, if_neg (Nat.not_lt.mpr h)]

theorem encodeBasic_cons_of_ne (hquote : c ≠ '"') (run : ℕ) (text : List Char) :
    encodeBasic long run (c :: text) = encodeChar long c ++ encodeBasic long 0 text := by
  rw [encodeBasic, if_neg hquote]

/-- Where a quote must be escaped, and for any other character, the next mark is no quote. -/
theorem encodeBasic_ne_quote {run : ℕ} (h : (if long then 2 else 0) ≤ run ∨ c ≠ '"')
    (text rest tail : List Char) : encodeBasic long run (c :: text) ++ rest ≠ '"' :: tail := by
  by_cases hquote : c = '"'
  · rw [hquote, encodeBasic_quote_of_ge (h.resolve_right (absurd hquote))]
    exact fun heq => nomatch (List.cons.inj heq).1
  · obtain ⟨d, ds, hencode, hd, -⟩ := exists_encodeChar_eq_cons long hquote
    rw [encodeBasic_cons_of_ne hquote, hencode]
    exact fun heq => hd (List.cons.inj heq).1

end Encoding

/-! ### Strings on one line -/

section Basic

variable {c letter : Char}

theorem basic?_escape (h : escaped? letter = some c) (rest : List Char) :
    basic? ('\\' :: letter :: rest) = prepend (some c) (basic? rest) := by
  obtain ⟨hu, hU, -⟩ := escaped?_letter h
  rw [basic?, h]
  · exact fun _ _ _ _ _ hletter => absurd hletter hu
  · exact fun _ _ _ _ _ _ _ _ _ hletter => absurd hletter hU

theorem basic?_encodeChar (hquote : c ≠ '"') (rest : List Char) :
    basic? (encodeChar false c ++ rest) = prepend (some c) (basic? rest) := by
  rcases encodeChar_cases false c with ⟨letter, hencode, hescaped⟩ | ⟨hencode, hscalar⟩ |
    ⟨-, -, hlong⟩ | ⟨hencode, hplain, hbackslash⟩
  · rw [hencode]
    exact basic?_escape hescaped rest
  · rw [hencode, ← hscalar]
    exact basic?.eq_3 ..
  · exact nomatch hlong
  · rw [hencode, List.singleton_append, basic?]
    · simp [hplain, hbackslash]
    all_goals grind

/-- A text that is written with escapes is read back. -/
theorem basic?_encodeBasic (text rest : List Char) :
    basic? (encodeBasic false 0 text ++ '"' :: rest) = some (text, rest) := by
  induction text with
  | nil => rw [encodeBasic, List.nil_append, basic?]
  | cons c text ih =>
    by_cases hquote : c = '"'
    · rw [hquote, encodeBasic_quote_of_ge (Nat.zero_le 0), List.cons_append, List.cons_append,
        basic?_escape rfl, ih]
      rfl
    · rw [encodeBasic_cons_of_ne hquote, List.append_assoc, basic?_encodeChar hquote, ih]
      rfl

theorem literal?_append {text : List Char} (h : ∀ c ∈ text, isPlain c = true ∧ c ≠ '\'')
    (rest : List Char) : literal? (text ++ '\'' :: rest) = some (text, rest) := by
  induction text with
  | nil => rw [List.nil_append, literal?]
  | cons c text ih =>
    obtain ⟨⟨hplain, hquote⟩, htext⟩ := List.forall_mem_cons.mp h
    rw [List.cons_append, literal?, if_pos hplain, ih htext]
    · rfl
    · exact hquote

end Basic

/-! ### Strings on several lines -/

section Long

variable {c letter : Char} {rest : List Char}

theorem longBasic?_escape (h : escaped? letter = some c) (rest : List Char) :
    longBasic? false ('\\' :: letter :: rest) = prepend (some c) (longBasic? false rest) := by
  obtain ⟨hu, hU, hblank, hfeed, hreturn⟩ := escaped?_letter h
  have hends : endsLine (letter :: rest) = false := by
    rw [endsLine, List.dropWhile_cons_of_neg (by simp [hblank])]
    split <;> simp_all
  rw [longBasic?, hends, h]
  · rfl
  · exact fun _ _ _ _ _ hletter => absurd hletter hu
  · exact fun _ _ _ _ _ _ _ _ _ hletter => absurd hletter hU

theorem longBasic?_encodeChar (hquote : c ≠ '"') (rest : List Char) :
    longBasic? false (encodeChar true c ++ rest) = prepend (some c) (longBasic? false rest) := by
  rcases encodeChar_cases true c with ⟨letter, hencode, hescaped⟩ | ⟨hencode, hscalar⟩ |
    ⟨hencode, hfeed, -⟩ | ⟨hencode, hplain, hbackslash⟩
  · rw [hencode]
    exact longBasic?_escape hescaped rest
  · rw [hencode, ← hscalar]
    exact longBasic?.eq_7 ..
  · rw [hencode, hfeed]
    exact longBasic?.eq_6 ..
  · obtain ⟨hfeed, hreturn⟩ := isPlain_ne hplain
    rw [hencode, List.singleton_append, longBasic?]
    · simp [hplain, hbackslash]
    all_goals grind

/-- A quote stands for itself unless two more follow. -/
theorem longBasic?_quote (h : ∀ tail, rest ≠ '"' :: '"' :: tail) :
    longBasic? false ('"' :: rest) = prepend (some '"') (longBasic? false rest) := by
  rw [longBasic?]
  · rfl
  all_goals grind

/-- Three quotes close a string, and at most two in front of them belong to it. -/
theorem longBasic?_close {n : ℕ} (hn : n ≤ 2) (h : ∀ tail, rest ≠ '"' :: tail) :
    longBasic? false (List.replicate n '"' ++ '"' :: '"' :: '"' :: rest) =
      some (List.replicate n '"', rest) := by
  match n with
  | 0 =>
    rw [List.replicate_zero, List.nil_append, longBasic?]
    all_goals grind
  | 1 =>
    rw [List.replicate_one, List.singleton_append, longBasic?]
    grind
  | 2 => exact longBasic?.eq_2 ..

theorem encodeBasic_quote_of_lt {run : ℕ} (h : run < 2) (text : List Char) :
    encodeBasic true run ('"' :: text) = '"' :: encodeBasic true (run + 1) text := by
  rw [encodeBasic, if_pos rfl, if_pos rfl, if_pos h]

/-- No two quotes follow the first one, unless the text ends with them. -/
theorem encodeBasic_ne_quotes {run : ℕ} (hrun : 1 ≤ run) {text : List Char} (hne : text ≠ [])
    (hlast : run = 1 → text ≠ ['"']) (tail : List Char) :
    encodeBasic true run text ++ rest ≠ '"' :: '"' :: tail := by
  obtain ⟨c, text, rfl⟩ := List.exists_cons_of_ne_nil hne
  by_cases hfew : run = 1 ∧ c = '"'
  · obtain ⟨rfl, rfl⟩ := hfew
    obtain ⟨d, text, rfl⟩ := List.exists_cons_of_ne_nil fun h => hlast rfl (h ▸ rfl)
    rw [encodeBasic_quote_of_lt (by decide)]
    intro heq
    exact encodeBasic_ne_quote (.inl (Nat.le_refl 2)) text rest tail (List.cons.inj heq).2
  · have hapart : 2 ≤ run ∨ c ≠ '"' := (not_and_or.mp hfew).imp_left (by omega)
    exact encodeBasic_ne_quote hapart text rest ('"' :: tail)

/-- Whatever quotes the text holds, the three behind it close the string. -/
theorem longBasic?_encodeBasic (h : ∀ tail, rest ≠ '"' :: tail) (text : List Char) (run : ℕ) :
    longBasic? false (encodeBasic true run text ++ '"' :: '"' :: '"' :: rest) =
      some (text, rest) := by
  induction text generalizing run with
  | nil => exact longBasic?_close (Nat.zero_le 2) h
  | cons c text ih =>
    by_cases hquote : c = '"'
    · subst hquote
      rcases Nat.lt_or_ge run 2 with hrun | hrun
      · -- The quotes at the end are read together with the closing ones, so these cases come first.
        by_cases hone : text = []
        · rw [hone, encodeBasic_quote_of_lt hrun]
          exact longBasic?_close (Nat.le_succ 1) h
        · by_cases htwo : run = 0 ∧ text = ['"']
          · obtain ⟨rfl, rfl⟩ := htwo
            exact longBasic?_close (Nat.le_refl 2) h
          · rw [encodeBasic_quote_of_lt hrun, List.cons_append,
              longBasic?_quote (encodeBasic_ne_quotes (by omega) hone (by grind)), ih]
            rfl
      · rw [encodeBasic_quote_of_ge hrun, List.cons_append, List.cons_append,
          longBasic?_escape rfl, ih]
        rfl
    · rw [encodeBasic_cons_of_ne hquote, List.append_assoc, longBasic?_encodeChar hquote, ih]
      rfl

theorem le_longestRun (mark : Char) (run : ℕ) (text : List Char) :
    run ≤ longestRun mark run text := by
  induction text generalizing run with
  | nil => exact Nat.le_refl run
  | cons c text ih =>
    rw [longestRun]
    split_ifs
    · exact Nat.le_trans (Nat.le_succ run) (ih (run + 1))
    · exact Nat.le_max_left ..

/-- An apostrophe stands for itself unless two more follow. -/
theorem longLiteral?_mark (h : ∀ tail, rest ≠ '\'' :: '\'' :: tail) :
    longLiteral? ('\'' :: rest) = prepend (some '\'') (longLiteral? rest) := by
  rw [longLiteral?]
  · rfl
  all_goals grind

theorem longLiteral?_close {n : ℕ} (hn : n ≤ 2) (h : ∀ tail, rest ≠ '\'' :: tail) :
    longLiteral? (List.replicate n '\'' ++ '\'' :: '\'' :: '\'' :: rest) =
      some (List.replicate n '\'', rest) := by
  match n with
  | 0 =>
    rw [List.replicate_zero, List.nil_append, longLiteral?]
    all_goals grind
  | 1 =>
    rw [List.replicate_one, List.singleton_append, longLiteral?]
    grind
  | 2 => exact longLiteral?.eq_2 ..

theorem longLiteral?_cons (hplain : needsEscape c = false) (hmark : c ≠ '\'')
    (rest : List Char) :
    longLiteral? (c :: rest) = prepend (some c) (longLiteral? rest) := by
  by_cases hfeed : c = '\n'
  · rw [hfeed]
    exact longLiteral?.eq_6 ..
  · have hplain : isPlain c = true := by simpa [needsEscape, hfeed] using hplain
    obtain ⟨-, hreturn⟩ := isPlain_ne hplain
    rw [longLiteral?]
    · rw [if_pos hplain]
    all_goals grind

/-- Where runs are short, no two apostrophes follow the first one, unless the text ends with
them. -/
theorem append_ne_marks {text : List Char} {run : ℕ} (hne : text ≠ []) (hlast : text ≠ ['\''])
    (hruns : longestRun '\'' (run + 1) text ≤ 2) (tail : List Char) :
    text ++ '\'' :: rest ≠ '\'' :: '\'' :: tail := by
  match text with
  | [c] =>
    intro heq
    exact hlast (congrArg ([·]) (List.cons.inj heq).1)
  | c :: d :: more =>
    intro heq
    obtain ⟨hfirst, hsecond⟩ := List.cons.inj heq
    obtain ⟨hsecond, -⟩ := List.cons.inj hsecond
    have hthree := le_longestRun '\'' (run + 1 + 1 + 1) more
    rw [longestRun, if_pos hfirst, longestRun, if_pos hsecond] at hruns
    omega

/-- A text that is written without escapes over several lines is read back. -/
theorem longLiteral?_append (h : ∀ tail, rest ≠ '\'' :: tail) {text : List Char} {run : ℕ}
    (hplain : ∀ c ∈ text, needsEscape c = false) (hruns : longestRun '\'' run text ≤ 2) :
    longLiteral? (text ++ '\'' :: '\'' :: '\'' :: rest) = some (text, rest) := by
  induction text generalizing run with
  | nil => exact longLiteral?_close (Nat.zero_le 2) h
  | cons c text ih =>
    obtain ⟨hfirst, htext⟩ := List.forall_mem_cons.mp hplain
    rw [longestRun] at hruns
    by_cases hmark : c = '\''
    · subst hmark
      rw [if_pos rfl] at hruns
      by_cases hone : text = []
      · rw [hone]
        exact longLiteral?_close (Nat.le_succ 1) h
      · by_cases htwo : text = ['\'']
        · rw [htwo]
          exact longLiteral?_close (Nat.le_refl 2) h
        · rw [List.cons_append, longLiteral?_mark (append_ne_marks hone htwo hruns),
            ih htext hruns]
          rfl
    · rw [if_neg hmark] at hruns
      rw [List.cons_append, longLiteral?_cons hfirst hmark,
        ih htext (Nat.le_trans (Nat.le_max_right ..) hruns)]
      rfl

end Long

/-! ### The style of a string -/

section Style

variable {text : List Char}

theorem one_le_longestRun {mark : Char} (h : mark ∈ text) (run : ℕ) :
    1 ≤ longestRun mark run text := by
  induction text generalizing run with
  | nil => exact absurd h List.not_mem_nil
  | cons c text ih =>
    rw [longestRun]
    split_ifs with hc
    · exact Nat.le_trans (Nat.le_add_left 1 run) (le_longestRun mark (run + 1) text)
    · have hrest := ih ((List.mem_cons.mp h).resolve_left (Ne.symm hc)) 0
      exact Nat.le_trans hrest (Nat.le_max_right ..)

theorem forall_plain_of_literal (h : styleOf text = .literal) :
    text ≠ [] ∧ ∀ c ∈ text, isPlain c = true ∧ c ≠ '\'' := by
  unfold styleOf at h
  dsimp only at h
  split_ifs at h with hbasic hliteral
  simp only [Bool.and_eq_true, Bool.not_eq_true', beq_iff_eq, List.any_eq_false] at hliteral
  obtain ⟨⟨hhard, hmarks⟩, hlines⟩ := hliteral
  refine ⟨fun hempty => hbasic (hempty ▸ rfl), fun c hc => ⟨?_, ?_⟩⟩
  · have hfeed : c ≠ '\n' := by
      rintro rfl
      exact Bool.false_ne_true (hlines.symm.trans (List.elem_eq_true_of_mem hc))
    simpa [needsEscape, hfeed] using hhard c hc
  · rintro rfl
    exact absurd (one_le_longestRun hc 0) (by omega)

theorem forall_plain_of_longLiteral (h : styleOf text = .longLiteral) :
    (∀ c ∈ text, needsEscape c = false) ∧ longestRun '\'' 0 text ≤ 2 := by
  unfold styleOf at h
  dsimp only at h
  split_ifs at h with hbasic hliteral hlongBasic hlongLiteral
  simp only [Bool.and_eq_true, Bool.not_eq_true', List.any_eq_false, decide_eq_true_eq,
    Bool.not_eq_true] at hlongLiteral
  exact hlongLiteral

/-- The line end that opens a string is dropped, and none of the string itself. -/
theorem dropLineEnd_openingLine {body : List Char}
    (h : ∀ c ∈ body.head?, c ≠ '\r' ∧ (c = '\n' → '\n' ∈ text)) :
    dropLineEnd (openingLine text ++ body) = body := by
  rw [openingLine]
  split_ifs with hlines
  · rfl
  · match body with
    | [] => rfl
    | c :: body =>
      obtain ⟨hreturn, hfeed⟩ := h c rfl
      rw [List.nil_append, dropLineEnd]
      · rintro _ ⟨rfl, -⟩
        exact hlines (List.elem_eq_true_of_mem (hfeed rfl))
      · rintro _ ⟨rfl, -⟩
        exact hreturn rfl

/-- A string in this style begins with a line end only if the text does. -/
theorem head_encodeBasic (text rest : List Char) :
    ∀ c ∈ (encodeBasic true 0 text ++ '"' :: rest).head?, c ≠ '\r' ∧ (c = '\n' → '\n' ∈ text) := by
  intro d hd
  cases text with
  | nil =>
    obtain rfl := Option.some.inj hd
    exact ⟨by decide, fun h => nomatch h⟩
  | cons c text =>
    by_cases hquote : c = '"'
    · rw [hquote, encodeBasic_quote_of_lt (by decide)] at hd
      obtain rfl := Option.some.inj hd
      exact ⟨by decide, fun h => nomatch h⟩
    · obtain ⟨first, others, hencode, -, hreturn, hfeed⟩ := exists_encodeChar_eq_cons true hquote
      rw [encodeBasic_cons_of_ne hquote, hencode] at hd
      obtain rfl := Option.some.inj hd
      exact ⟨hreturn, fun h => List.mem_cons.mpr (.inl (hfeed h).symm)⟩

/-- A text in quotes is read back, if no quote follows. -/
theorem string?_quote {rest : List Char} (hquote : ∀ tail, rest ≠ '"' :: tail)
    (hmark : ∀ tail, rest ≠ '\'' :: tail) (text : List Char) :
    string? (quote text ++ rest) = some (text, rest) := by
  unfold quote
  cases hstyle : styleOf text with
  | basic =>
    dsimp only
    rw [List.cons_append, List.append_assoc, List.singleton_append, string?]
    · exact basic?_encodeBasic text rest
    · intro tail heq
      cases text with
      | nil => exact hquote tail (List.cons.inj heq).2
      | cons c text => exact encodeBasic_ne_quote (.inl (Nat.le_refl 0)) text _ _ heq
  | literal =>
    obtain ⟨hne, hplain⟩ := forall_plain_of_literal hstyle
    dsimp only
    rw [List.cons_append, List.append_assoc, List.singleton_append, string?]
    · exact literal?_append hplain rest
    · intro tail heq
      obtain ⟨c, text, rfl⟩ := List.exists_cons_of_ne_nil hne
      exact (hplain c List.mem_cons_self).2 (List.cons.inj heq).1
  | longBasic =>
    dsimp only
    simp only [List.append_assoc, List.cons_append, List.nil_append]
    rw [string?, dropLineEnd_openingLine]
    · exact longBasic?_encodeBasic hquote text 0
    · exact head_encodeBasic text _
  | longLiteral =>
    obtain ⟨hplain, hruns⟩ := forall_plain_of_longLiteral hstyle
    dsimp only
    simp only [List.append_assoc, List.cons_append, List.nil_append]
    rw [string?, dropLineEnd_openingLine]
    · exact longLiteral?_append hmark hplain hruns
    · intro d hd
      cases text with
      | nil =>
        obtain rfl := Option.some.inj hd
        exact ⟨by decide, fun h => nomatch h⟩
      | cons c text =>
        obtain rfl := Option.some.inj hd
        refine ⟨?_, fun h => h ▸ List.mem_cons_self⟩
        rintro rfl
        exact nomatch hplain _ List.mem_cons_self

theorem exists_quote_eq_cons (text : List Char) :
    ∃ mark tail, quote text = mark :: tail ∧ (mark = '"' ∨ mark = '\'') := by
  unfold quote
  cases styleOf text with
  | basic => exact ⟨_, _, rfl, .inl rfl⟩
  | literal => exact ⟨_, _, rfl, .inr rfl⟩
  | longBasic => exact ⟨_, _, rfl, .inl rfl⟩
  | longLiteral => exact ⟨_, _, rfl, .inr rfl⟩

end Style

end DeskCalculator.Toml
