import DeskCalculator.Proofs.Toml.Quoted
import DeskCalculator.Proofs.Toml.Scalar
import DeskCalculator.Toml.Document
import Mathlib.Data.Nat.Notation

/-!
Documents read back line by line. A header, a key with its value and an empty line are each read as
what they say, whatever lines follow.
-/
namespace DeskCalculator.Toml

def IsBare (key : String) : Prop := key.toList ≠ [] ∧ key.toList.all isBareKey = true

instance (key : String) : Decidable (IsBare key) := inferInstanceAs (Decidable (_ ∧ _))

section Keys

variable {key : String} (hkey : IsBare key)
include hkey

/-- A bare key begins with a character that opens nothing else. -/
theorem IsBare.exists_toList_eq_cons :
    ∃ c tail, key.toList = c :: tail ∧ ∀ d, isBareKey d = false → c ≠ d := by
  have ⟨hne, hbare⟩ := hkey
  obtain ⟨c, tail, hcons⟩ := List.exists_cons_of_ne_nil hne
  refine ⟨c, tail, hcons, ?_⟩
  rintro d hd rfl
  have hmem : c ∈ key.toList := hcons ▸ List.mem_cons_self
  exact Bool.false_ne_true (hd.symm.trans (List.all_eq_true.mp hbare c hmem))

theorem IsBare.dropWhile_isBlank (rest : List Char) :
    (key.toList ++ rest).dropWhile isBlank = key.toList ++ rest := by
  obtain ⟨c, tail, hcons, hfirst⟩ := hkey.exists_toList_eq_cons
  rw [hcons, List.cons_append, List.dropWhile_cons_of_neg]
  simp [isBlank, hfirst ' ' (by decide), hfirst '\t' (by decide)]

theorem IsBare.simpleKey?_append {c : Char} (hc : isBareKey c = false) (rest : List Char) :
    simpleKey? (key.toList ++ c :: rest) = some (key, c :: rest) := by
  have htake : (key.toList ++ c :: rest).takeWhile isBareKey = key.toList := by
    rw [List.takeWhile_append_of_pos (List.all_eq_true.mp hkey.2),
      List.takeWhile_cons_of_neg (by simp [hc]), List.append_nil]
  obtain ⟨d, tail, hcons, hfirst⟩ := hkey.exists_toList_eq_cons
  unfold simpleKey?
  split
  · next heq => exact absurd (List.cons.inj (hcons ▸ heq)).1 (hfirst '"' (by decide))
  · next heq => exact absurd (List.cons.inj (hcons ▸ heq)).1 (hfirst '\'' (by decide))
  · simp only [htake, List.isEmpty_iff, if_neg hkey.1, String.ofList_toList, List.drop_left]

/-- A bare key with no dot behind it. -/
theorem IsBare.key?_append {c d : Char} {rest tail : List Char} (hc : isBareKey c = false)
    (hrest : (c :: rest).dropWhile isBlank = d :: tail) (hd : d ≠ '.') :
    key? (key.toList ++ c :: rest) = some (([], key), d :: tail) := by
  have hparts : keyParts? (key.toList ++ c :: rest) = some ([key], d :: tail) := by
    rw [keyParts?, hkey.dropWhile_isBlank, hkey.simpleKey?_append hc]
    dsimp only [bind, Option.bind]
    rw [hrest]
    split
    · next heq => exact absurd (List.cons.inj heq).1 hd
    · rfl
  rw [key?, hparts]
  rfl

/-- A line that opens a table. -/
theorem statement?_header (rest : List Char) :
    statement? ('[' :: (key.toList ++ ']' :: rest)) = some (.table [] key, rest) := by
  obtain ⟨c, tail, hcons, hfirst⟩ := hkey.exists_toList_eq_cons
  rw [statement?, hkey.key?_append (by decide) (List.dropWhile_cons_of_neg (by decide)) (by decide)]
  · rfl
  · intro rest heq
    rw [hcons] at heq
    exact hfirst '[' (by decide) (List.cons.inj heq).1

/-- A key with its value. -/
theorem statement?_keyValue {written rest : List Char} {value : Value}
    (hwritten : written.dropWhile isBlank = written)
    (hvalue : value? depthLimit written = some (value, rest)) :
    statement? (key.toList ++ ' ' :: '=' :: ' ' :: written) = some (.entry [] key value, rest) := by
  have hpair : keyValue? (value? depthLimit) (key.toList ++ ' ' :: '=' :: ' ' :: written) =
      some ((([], key), value), rest) := by
    have hskip : (' ' :: written).dropWhile isBlank = written := hwritten
    rw [keyValue?, hkey.key?_append (by decide) rfl (by decide), Option.bind_eq_bind,
      Option.bind_some]
    change Option.bind (value? depthLimit ((' ' :: written).dropWhile isBlank)) _ = _
    rw [hskip, hvalue]
    rfl
  obtain ⟨c, tail, hcons, hfirst⟩ := hkey.exists_toList_eq_cons
  have hopen := hfirst '[' (by decide)
  rw [hcons, List.cons_append] at hpair ⊢
  rw [statement?, hpair]
  · rfl
  all_goals
    intro rest heq
    exact hopen (List.cons.inj heq).1

theorem IsBare.lineEnd?_append (rest : List Char) : lineEnd? (key.toList ++ rest) = none := by
  obtain ⟨c, tail, hcons, hfirst⟩ := hkey.exists_toList_eq_cons
  have hcomment := hfirst '#' (by decide)
  have hfeed := hfirst '\n' (by decide)
  have hreturn := hfirst '\r' (by decide)
  unfold lineEnd?
  rw [hkey.dropWhile_isBlank, hcons, List.cons_append]
  simp [hcomment, hfeed, hreturn]

end Keys

/-- A line with a statement on it. -/
theorem statements?_cons {text rest : List Char} {statement : Statement}
    (hline : lineEnd? text = none)
    (hstatement : statement? (text.dropWhile isBlank) = some (statement, '\n' :: rest))
    (hshorter : rest.length < text.length) :
    statements? text = (statements? rest).map (statement :: ·) := by
  have hnonempty : ¬text.isEmpty = true := by
    rintro hempty
    rw [List.isEmpty_iff.mp hempty] at hshorter
    exact Nat.not_lt_zero _ hshorter
  have hnext : lineEnd? ('\n' :: rest) = some rest := rfl
  rw [statements?, if_neg hnonempty, hline]
  dsimp only
  rw [hstatement, Option.bind_eq_bind, Option.bind_some, hnext, Option.bind_eq_bind,
    Option.bind_some, if_pos hshorter]
  cases statements? rest <;> rfl

theorem statements?_nil : statements? [] = some [] := by
  rw [statements?]
  rfl

theorem statements?_emptyLine (rest : List Char) :
    statements? ('\n' :: rest) = statements? rest := by
  have hline : lineEnd? ('\n' :: rest) = some rest := rfl
  rw [statements?, if_neg (by simp), hline]
  exact if_pos (Nat.lt_succ_self rest.length)

/-! ### Values behind keys -/

theorem value?_eq_leaf? {c : Char} (hitems : c ≠ '[') (hpairs : c ≠ '\x7b') (depth : ℕ)
    (rest : List Char) : value? depth (c :: rest) = leaf? (c :: rest) := by
  unfold value?
  split
  · next heq => exact absurd (List.cons.inj heq).1 hitems
  · next heq => exact absurd (List.cons.inj heq).1 hpairs
  · rfl

theorem value?_quote (depth : ℕ) (text rest : List Char) :
    value? depth (quote text ++ '\n' :: rest) =
      some (.string (String.ofList text), '\n' :: rest) := by
  have hstring : string? (quote text ++ '\n' :: rest) = some (text, '\n' :: rest) :=
    string?_quote (by simp) (by simp) text
  obtain ⟨mark, tail, hcons, hmark⟩ := exists_quote_eq_cons text
  rw [hcons, List.cons_append] at hstring ⊢
  rcases hmark with rfl | rfl
  · rw [value?_eq_leaf? (by decide) (by decide), leaf?, hstring]
    rfl
  · rw [value?_eq_leaf? (by decide) (by decide), leaf?, hstring]
    rfl

theorem value?_decimalText (depth : ℕ) {n : ℕ} (h : n < 0x8000000000000000) (rest : List Char) :
    value? depth (Number.decimalText n ++ '\n' :: rest) = some (.integer n, '\n' :: rest) := by
  have hscalar := scalarValue?_decimalText h (by decide : isScalarChar '\n' = false) rest
  obtain ⟨c, tail, hcons, hdigit⟩ := Number.exists_decimalText_eq_cons n
  have hne : ∀ {d : Char}, d.isDigit = false → c ≠ d := by
    rintro d hd rfl
    exact Bool.false_ne_true (hd.symm.trans hdigit)
  rw [hcons, List.cons_append] at hscalar ⊢
  rw [value?_eq_leaf? (hne (by decide)) (hne (by decide)), leaf?, hscalar]
  · exact fun _ heq => hne (by decide) (List.cons.inj heq).1
  · exact fun _ heq => hne (by decide) (List.cons.inj heq).1

section Lines

variable {key : String} (hkey : IsBare key) {rest : List Char}
include hkey

theorem statements?_header :
    statements? ('[' :: (key.toList ++ ']' :: '\n' :: rest)) =
      (statements? rest).map (.table [] key :: ·) := by
  apply statements?_cons
  · rfl
  · exact statement?_header hkey ('\n' :: rest)
  · simp only [List.length_cons, List.length_append]
    omega

theorem statements?_keyValue {written : List Char} {value : Value}
    (hwritten : (written ++ '\n' :: rest).dropWhile isBlank = written ++ '\n' :: rest)
    (hvalue : value? depthLimit (written ++ '\n' :: rest) = some (value, '\n' :: rest)) :
    statements? (key.toList ++ ' ' :: '=' :: ' ' :: (written ++ '\n' :: rest)) =
      (statements? rest).map (.entry [] key value :: ·) := by
  apply statements?_cons
  · exact hkey.lineEnd?_append _
  · rw [hkey.dropWhile_isBlank]
    exact statement?_keyValue hkey hwritten hvalue
  · simp only [List.length_cons, List.length_append]
    omega

/-- A line that gives a key a text. -/
theorem statements?_quote (text : List Char) :
    statements? (key.toList ++ ' ' :: '=' :: ' ' :: (quote text ++ '\n' :: rest)) =
      (statements? rest).map (.entry [] key (.string (String.ofList text)) :: ·) := by
  refine statements?_keyValue hkey ?_ (value?_quote depthLimit text rest)
  obtain ⟨mark, tail, hcons, rfl | rfl⟩ := exists_quote_eq_cons text
  · rw [hcons, List.cons_append, List.dropWhile_cons_of_neg (by decide)]
  · rw [hcons, List.cons_append, List.dropWhile_cons_of_neg (by decide)]

/-- A line that gives a key a number. -/
theorem statements?_decimalText {n : ℕ} (h : n < 0x8000000000000000) :
    statements? (key.toList ++ ' ' :: '=' :: ' ' :: (Number.decimalText n ++ '\n' :: rest)) =
      (statements? rest).map (.entry [] key (.integer n) :: ·) := by
  refine statements?_keyValue hkey ?_ (value?_decimalText depthLimit h rest)
  obtain ⟨c, tail, hcons, hdigit⟩ := Number.exists_decimalText_eq_cons n
  have hblank : isBlank c = false := by
    rw [isBlank, Bool.or_eq_false_iff, beq_eq_false_iff_ne, beq_eq_false_iff_ne]
    refine ⟨?_, ?_⟩ <;> (rintro rfl; exact absurd hdigit (by decide))
  rw [hcons, List.cons_append, List.dropWhile_cons_of_neg (by simp [hblank])]

end Lines

end DeskCalculator.Toml
